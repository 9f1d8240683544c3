import Mathlib.Data.List.Basic
import Mathlib.Data.List.Forall2

/-!
# SFTP Paths

The `Path` class of `sftp-server.cpp` and its descendants, as the SFTP server uses
them to turn a client string into a file name below the user's home directory.

## The pieces

- `Path.init` / `parsePath`: the text checks and the `'\\'`, `':'` tokenizer
- `Path.normalize`: removal of `"."` and `".."` on a stack of components
- `shieSSHPath`: the client form, always starting with `'\\'`
- `sftpFilePathFactory` / `createPath`: the home directory and the two ways a client
  path is attached to it

Wide strings are lists of 16-bit units. `assert` is compiled out under `NDEBUG`, so the
functions that contain one take the build flag `ndebug`; without it a failed assertion
is the outcome `PathError.assertion`.
-/

namespace Shiesh.Sftp

/-! ## Wide strings -/

/-- `wchar_t` on Windows. -/
abbrev WChar := UInt16

abbrev WString := List WChar

-- the literals `L'c'` and `L"..."`
def L (c : Char) : WChar := UInt16.ofNat c.toNat

def wstr (cs : List Char) : WString := cs.map L

/-- `std::tolower (c, Path::loc)`: `Path::loc` is built before `main` from the classic
locale, which maps the ASCII capitals only. -/
def tolower (c : WChar) : WChar :=
  if 0x41 ≤ c ∧ c ≤ 0x5a then c + 0x20 else c

inductive PathError where
  -- `Path::InvalidPath (path, reason)`
  | invalidPath (path : WString) (reason : String)
  -- `std::out_of_range`
  | outOfRange
  -- a failed `assert` in a build without `NDEBUG`
  | assertion
  -- a call through the null `userHomeDir` pointer
  | nullDeref
  deriving DecidableEq, Repr

def assertThat (ndebug cond : Bool) : Except PathError Unit :=
  if cond || ndebug then .ok () else .error .assertion

/-! ## Path -/

/-- `Path`: the components, the drive letter (`'?'` for none) and the relative flag. -/
structure Path where
  path : List WString
  drive : WChar
  isRelative : Bool
  deriving DecidableEq, Repr

namespace Path

def hasDriveLetter (p : Path) : Bool := p.drive != L '?'

def nDirs (p : Path) : Nat := p.path.length

/-- The components joined by `separator`, as the `to_string_generic` loop writes them. -/
def joinDirs (separator : WChar) : List WString → WString
  | [] => []
  | [c] => c
  | c :: cs => c ++ separator :: joinDirs separator cs

def toStringGeneric (ndebug : Bool) (p : Path) (separator : WChar) : Except PathError WString := do
  assertThat ndebug (p.isRelative || 1 ≤ p.path.length || p.hasDriveLetter)
  let strm := joinDirs separator p.path
  if !p.isRelative && p.hasDriveLetter then
    .ok ([p.drive, L ':', separator] ++ strm)
  else
    .ok strm

def toWString (ndebug : Bool) (p : Path) : Except PathError WString :=
  p.toStringGeneric ndebug (L '\\')

/-- `throw InvalidPath (p.to_string (), reason)` -/
def throwInvalid {α : Type} (ndebug : Bool) (p : Path) (reason : String) : Except PathError α := do
  let text ← p.toWString ndebug
  .error (.invalidPath text reason)

end Path

/-! ## The text checks and the tokenizer -/

def hasRepeatedSlash : WString → Bool
  | a :: b :: cs => (a == L '\\' && b == L '\\') || hasRepeatedSlash (b :: cs)
  | _ => false

/-- The characters of `find_first_of (L"\\:", from)`. -/
def isSeparator (c : WChar) : Bool := c == L '\\' || c == L ':'

/-- The `parse_path` loop. `tok` is the text between `from` and the scan position; the
result is the drive letter and the components pushed so far. The last token is pushed
as a component even when no drive letter has been taken yet. -/
def parsePath (ndebug : Bool) (firstIsDrive : Bool) (tok : WString) (drive : WChar)
    (path : List WString) : WString → Except PathError (WChar × List WString)
  | [] => .ok (drive, if tok = [] then path else path ++ [tok])
  | c :: cs =>
    if isSeparator c then
      match tok with
      | [] => parsePath ndebug firstIsDrive [] drive path cs
      | t :: ts =>
        if firstIsDrive then
          -- `assert (driveLetter.length () == 1)`
          if ts = [] ∨ ndebug = true then
            parsePath ndebug false [] (tolower t) path cs
          else
            .error .assertion
        else
          parsePath ndebug false [] drive (path ++ [t :: ts]) cs
    else
      parsePath ndebug firstIsDrive (tok ++ [c]) drive path cs

/-- `drive` as `init` reads it before parsing: `pathStr[0]` when `pathStr[1]` is `':'`. -/
def driveOf : WString → WChar
  | c :: d :: _ => if d == L ':' then c else L '?'
  | _ => L '?'

/-- `Path::init` (with `MATT_PATHES`). -/
def Path.init (ndebug : Bool) (pathStr : WString) : Except PathError Path :=
  if hasRepeatedSlash pathStr then
    .error (.invalidPath pathStr " found the sequence of \\")
  else if (pathStr.drop 2).contains (L ':') then
    .error (.invalidPath pathStr " found ':' in a path")
  else
    let drive := driveOf pathStr
    let isRelative := !(pathStr[0]? == some (L '\\') ||
      (drive != L '?' && pathStr[2]? == some (L '\\')))
    if !isRelative && drive == L '?' then
      .error (.invalidPath pathStr " absolute path must contain a drive letter")
    else do
      let (drive', comps) ← parsePath ndebug (drive != L '?') [] drive [] pathStr
      let p : Path := { path := comps, drive := drive', isRelative := isRelative }
      assertThat ndebug (p.isRelative || 1 ≤ p.path.length || p.hasDriveLetter)
      .ok p

/-! ## Normalization -/

def point : WString := [L '.']

def point2 : WString := [L '.', L '.']

/-- One turn of the `normalize` loop on `(res, normalized)`. -/
def normalizeStep (acc : List WString × Bool) (c : WString) : List WString × Bool :=
  if c = point then acc
  else if c = point2 then
    match acc.1.getLast? with
    | some b => if b ≠ point2 then (acc.1.dropLast, acc.2) else (acc.1 ++ [point2], false)
    | none => (acc.1 ++ [point2], false)
  else (acc.1 ++ [c], acc.2)

def normalizeDirs (path : List WString) : List WString × Bool :=
  path.foldl normalizeStep ([], true)

/-- `normalize`: the path with its components replaced, and the returned flag. -/
def Path.normalize (p : Path) : Path × Bool :=
  let r := normalizeDirs p.path
  ({ p with path := r.1 }, r.2)

/-! ## Prefixes, comparison and concatenation -/

def Path.nFirstDirs (p : Path) (n : Nat) : Except PathError Path :=
  if n > p.nDirs then .error .outOfRange
  else .ok { p with path := p.path.take n }

def charEqualIgnoreCase (a b : WChar) : Bool := tolower a == tolower b

/-- `std::equal` on two ranges whose lengths were compared before. -/
def rangeEqual {α : Type} (eq : α → α → Bool) : List α → List α → Bool
  | a :: as, b :: bs => eq a b && rangeEqual eq as bs
  | _, _ => true

def isEqualIgnoreCase (a b : WString) : Bool :=
  a.length == b.length && rangeEqual charEqualIgnoreCase a b

/-- `operator==`, which ignores case in the components but not in the drive letter. -/
def Path.eqv (a b : Path) : Bool :=
  if a.isRelative == b.isRelative && a.drive == b.drive then
    a.path.length == b.path.length && rangeEqual isEqualIgnoreCase a.path b.path
  else
    false

def Path.append (ndebug : Bool) (pfx suffix : Path) : Except PathError Path :=
  if !suffix.isRelative then
    suffix.throwInvalid ndebug " as a suffix"
  else if suffix.hasDriveLetter && (!pfx.hasDriveLetter || suffix.drive != pfx.drive) then do
    let s ← pfx.toWString ndebug
    let t ← suffix.toWString ndebug
    .error (.invalidPath (s ++ wstr [' ', '(', '+', ')', ' '] ++ t) " misplaced drive letter")
  else
    .ok { path := pfx.path ++ suffix.path, drive := pfx.drive, isRelative := pfx.isRelative }

/-! ## SFTPFilePath and its factory -/

/-- `SFTPFilePath`: a path that is not relative, with the number of its leading
components that come from the user's home. -/
structure SFTPFilePath extends Path where
  nUserHomePos : Nat
  notRelative : isRelative = false

def sftpFilePath (ndebug : Bool) (pth : Path) (nUserHomePos : Nat) :
    Except PathError SFTPFilePath :=
  if h : pth.isRelative = true then
    pth.throwInvalid ndebug " bad SFTP path, couldn't be relative"
  else
    .ok { pth with nUserHomePos := nUserHomePos, notRelative := by simpa using h }

/-- The `SFTPFilePathFactory` constructor: `userHomeDir` from the text of the home. The
message for a relative home is taken from `userHomeDir`, which is still null there. -/
def sftpFilePathFactory (ndebug : Bool) (homeDir : WString) : Except PathError SFTPFilePath := do
  let home ← Path.init ndebug homeDir
  if home.isRelative then
    .error .nullDeref
  else
    let (home, normalized) := home.normalize
    if !normalized then
      home.throwInvalid ndebug " impossible to get the user home normalized"
    else
      sftpFilePath ndebug home home.nDirs

/-- The loop that keeps one `'\\'` of every run, with its flag `last_was_slash`. -/
def collapseSlashes (lastWasSlash : Bool) : WString → WString
  | [] => []
  | c :: cs =>
    if c = L '\\' then
      if lastWasSlash then collapseSlashes true cs else c :: collapseSlashes true cs
    else c :: collapseSlashes false cs

def replaceSlashes (s : WString) : WString :=
  s.map fun c => if c = L '/' then L '\\' else c

def getStandardForm (sshPath : WString) : Except PathError WString :=
  match sshPath with
  | c :: cs =>
    if c = L '\\' then .ok cs
    else .error (.invalidPath sshPath " ssh path must starts with '\\'")
  | [] => .error (.invalidPath sshPath " ssh path must starts with '\\'")

/-- The `ShieSSHPath` constructor: relative exactly when there is no drive letter. -/
def shieSSHPath (ndebug : Bool) (sshPath : WString) : Except PathError Path := do
  let form ← getStandardForm sshPath
  let p ← Path.init ndebug form
  .ok { p with isRelative := !p.hasDriveLetter }

/-- The text `create_path` hands to `ShieSSHPath`. -/
def sshPathText (pathStr : WString) : WString :=
  let pathStrRem := collapseSlashes false (replaceSlashes pathStr)
  if pathStrRem[0]? = some (L '\\') then pathStrRem else L '\\' :: pathStrRem

/-- The prefix check of `create_path`; `n_first_dirs` throwing `out_of_range` is caught
and leaves `valid` false. -/
def belowHome (userHomeDir path : Path) : Bool :=
  match path.nFirstDirs userHomeDir.nDirs with
  | .ok first =>
    first.eqv userHomeDir && (!path.hasDriveLetter || path.drive == userHomeDir.drive)
  | .error _ => false

/-- `SFTPFilePathFactory::create_path`, from the wide string that `fromUTF8` returns. -/
def createPath (ndebug : Bool) (userHomeDir : SFTPFilePath) (pathStr : WString) :
    Except PathError SFTPFilePath := do
  let path ← shieSSHPath ndebug (sshPathText pathStr)
  let (path, normalized) := path.normalize
  if !normalized then
    path.throwInvalid ndebug " points above a start point"
  else if path.isRelative then do
    let res ← userHomeDir.toPath.append ndebug path
    sftpFilePath ndebug res userHomeDir.nDirs
  else if !belowHome userHomeDir.toPath path then
    path.throwInvalid ndebug " it points outside of the user home dir"
  else
    sftpFilePath ndebug path userHomeDir.nDirs

/-! ## Names for the system and for the client -/

/-- `to_string (endWithSlash)` -/
def Path.toWStringWith (ndebug : Bool) (p : Path) (endWithSlash : Bool) :
    Except PathError WString := do
  if endWithSlash then
    if p.isRelative && p.path.isEmpty then
      p.throwInvalid ndebug "unable to append \\ to the end"
  else
    if !p.isRelative && p.path.isEmpty then
      p.throwInvalid ndebug "unable to remove \\ from the end"
  let s ← p.toWString ndebug
  .ok (if !endWithSlash || s.getLast? = some (L '\\') then s else s ++ [L '\\'])

/-- `unix_form` (with `MATT_PATHES` and `PREPEND_SLASH_TO_CLIENT`) -/
def Path.unixForm (ndebug : Bool) (p : Path) : Except PathError WString := do
  let s ← p.toStringGeneric ndebug (L '/')
  .ok (L '/' :: s)

def longPrefix : WString := [L '\\', L '\\', L '?', L '\\']

def SFTPFilePath.getForCall (ndebug : Bool) (p : SFTPFilePath) : Except PathError WString := do
  assertThat ndebug (!p.isRelative)
  let s ← p.toWString ndebug
  .ok (longPrefix ++ s)

def SFTPFilePath.getMaskForDirSearch (ndebug : Bool) (p : SFTPFilePath) :
    Except PathError WString := do
  assertThat ndebug (!p.isRelative)
  let s ← p.toWStringWith ndebug true
  .ok (longPrefix ++ s ++ [L '*'])

def SFTPFilePath.nFirstDirs (ndebug : Bool) (p : SFTPFilePath) (n : Nat) :
    Except PathError SFTPFilePath := do
  let q ← p.toPath.nFirstDirs n
  sftpFilePath ndebug q p.nUserHomePos

end Shiesh.Sftp
