import Mathlib.Data.List.TakeWhile

/-!
# Common Ground

Bytes, C strings, the ways a connection thread ends, and the SSH2 message numbers.

A call of `fatal`, `packet_disconnect` or `cleanup_exit` throws `XShuttingDown` out of
the connection thread; it never returns to its caller. The model throws a `Halt` that
records the format string and the arguments.
-/

namespace Shiesh

abbrev Bytes := List UInt8

/-- The bytes of a string literal. -/
def ascii (s : String) : Bytes := s.toList.map fun c => UInt8.ofNat c.toNat

/-- What `strlen`, `strcmp` and `xstrdup` see of a `char*`: the bytes before the first NUL. -/
def cstr (b : Bytes) : Bytes := b.takeWhile (· ≠ 0)

theorem cstr_of_notMem {b : Bytes} (h : 0 ∉ b) : cstr b = b := by
  rw [cstr, List.takeWhile_eq_self_iff]
  exact fun c hc => decide_eq_true fun hzero => h (hzero ▸ hc)

/-- `strchr (b, c)` followed by writing a NUL there: the part before the first `c`, and the
part after it when there is one. -/
def cutAt (c : UInt8) (b : Bytes) : Bytes × Option Bytes :=
  (b.takeWhile (· ≠ c), (b.dropWhile (· ≠ c)).tail?)

/-! ## How a connection ends -/

inductive Arg where
  | str (s : Bytes)
  | num (n : Nat)
  -- a signed `%d`
  | int (n : Int)
  deriving DecidableEq, Repr

inductive Halt where
  | fatal (fmt : String) (args : List Arg)
  -- `packet_disconnect`: a DISCONNECT with the formatted text is sent first
  | disconnect (fmt : String) (args : List Arg)
  -- `cleanup_exit`
  | exit (code : Nat)
  -- a C++ exception other than `XShuttingDown`
  | exception (what : String)
  deriving DecidableEq, Repr

/-! ## Packets -/

/-- A packet as the packet layer hands it over: its type and the bytes after the type. -/
structure Packet where
  type : UInt8
  payload : Bytes
  deriving DecidableEq, Repr

namespace Ssh2Msg

abbrev transportMin : UInt8 := 1
abbrev transportMax : UInt8 := 49
abbrev disconnect : UInt8 := 1
abbrev ignore : UInt8 := 2
abbrev unimplemented : UInt8 := 3
abbrev debug : UInt8 := 4
abbrev serviceRequest : UInt8 := 5
abbrev serviceAccept : UInt8 := 6
abbrev kexinit : UInt8 := 20
abbrev newkeys : UInt8 := 21
abbrev kexdhInit : UInt8 := 30
abbrev kexdhReply : UInt8 := 31
abbrev kexDhGexRequestOld : UInt8 := 30
abbrev kexDhGexGroup : UInt8 := 31
abbrev kexDhGexInit : UInt8 := 32
abbrev kexDhGexReply : UInt8 := 33
abbrev kexDhGexRequest : UInt8 := 34
abbrev userauthRequest : UInt8 := 50
abbrev userauthFailure : UInt8 := 51
abbrev userauthSuccess : UInt8 := 52
abbrev userauthBanner : UInt8 := 53
abbrev channelOpenConfirmation : UInt8 := 91
abbrev channelOpenFailure : UInt8 := 92
abbrev channelWindowAdjust : UInt8 := 93
abbrev channelData : UInt8 := 94
abbrev channelEof : UInt8 := 96
abbrev channelClose : UInt8 := 97
abbrev channelRequest : UInt8 := 98
abbrev channelSuccess : UInt8 := 99
abbrev channelFailure : UInt8 := 100
abbrev localMin : UInt8 := 192

end Ssh2Msg

end Shiesh
