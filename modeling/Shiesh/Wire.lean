import Shiesh.Basic
import Shiesh.Lib.BigEndian
import Shiesh.Lib.Wp

/-!
# Wire Format

The readers and writers of `bufaux.cpp` and the `packet_get_*` functions, on the visible
contents of a buffer. A reader runs on what is left of the packet and throws when the
packet is too short.
-/

namespace Shiesh

open Shiesh.Lib List UInt32

/-! ## Writers -/

def putU32 (v : UInt32) : Bytes := beBytes 4 v.toNat

variable (b : Bytes) (v : UInt32)

def putString : Bytes := putU32 (UInt32.ofNat b.length) ++ b

/-- `buffer_put_cstring`: the length is `strlen`. -/
def putCstring : Bytes := putString (cstr b)

/-- `BN_bn2bin`: big-endian without leading zeros; a number is never negative here. -/
def bnBytes (n : Nat) : Bytes :=
  if n = 0 then [] else beBytes (n.log2 / 8 + 1) n

/-- `buffer_put_bignum2`: a zero byte goes in front when the high bit is set. -/
def putBignum2 (n : Nat) : Bytes :=
  if n = 0 then putU32 0
  else
    let bin := bnBytes n
    putString (if bin.headD 0 &&& 0x80 = 0 then bin else 0 :: bin)

/-! ## Readers -/

/-- A reader of the current packet. -/
abbrev Get := EStateM Halt Bytes

def getU32 : UInt32 := UInt32.ofNat (beNat b)

@[simp] theorem putU32_length : (putU32 v).length = 4 := beBytes_length 4 _

theorem putString_length : (putString b).length = 4 + b.length := by
  rw [putString, length_append, putU32_length]

@[simp] theorem getU32_putU32 : getU32 (putU32 v) = v := by
  have h : v.toNat % 256 ^ 4 = v.toNat := Nat.mod_eq_of_lt v.toNat_lt
  rw [getU32, putU32, beNat_beBytes, h, UInt32.ofNat_toNat]

theorem putU32_getU32 {b : Bytes} (h : b.length = 4) : putU32 (getU32 b) = b := by
  have hlt : beNat b < 256 ^ 4 := h ▸ beNat_lt b
  have hnum : (ofNat (beNat b)).toNat = beNat b := toNat_ofNat_of_lt hlt
  have hcode := beBytes_beNat b
  rw [h] at hcode
  rw [getU32, putU32, hnum, hcode]

/-- A string ends where its length says. -/
theorem putString_append_inj {a c x y : Bytes} (ha : a.length < size)
    (hc : c.length < size) (h : putString a ++ x = putString c ++ y) : a = c ∧ x = y := by
  rw [putString, putString, append_assoc, append_assoc] at h
  obtain ⟨hlen, hrest⟩ := append_inj h (by rw [putU32_length, putU32_length])
  have hfield := congrArg (fun b => (getU32 b).toNat) hlen
  simp only [getU32_putU32] at hfield
  rw [toNat_ofNat_of_lt' ha, toNat_ofNat_of_lt' hc] at hfield
  exact append_inj hrest hfield

/-- `buffer_get_ret`: `len` bytes from the front, unless there are fewer. -/
def bufferGetRet (len : Nat) : Option (Bytes × Bytes) :=
  if len > b.length then none else some (b.take len, b.drop len)

/-- Reading `len` bytes, with the `fatal` text of the caller. -/
def bufferGetOr (msg : String) (len : Nat) : Get Bytes := do
  match bufferGetRet (← get) len with
  | none => throw (.fatal msg [])
  | some (front, rest) => do
    set rest
    pure front

variable {rest : Bytes} {Q : Bytes → Bytes → Prop} {E : Halt → Bytes → Prop}

theorem wp_bufferGetOr (msg : String) {front : Bytes} {len : Nat} (h : front.length = len) :
    wp (bufferGetOr msg len) Q E (front ++ rest) ↔ Q front rest := by
  subst h
  have hlen : ¬front.length > (front ++ rest).length := by simp
  simp only [bufferGetOr, bufferGetRet, wp_bind, wp_get, if_neg hlen, take_left,
    drop_left]
  rw [wp_set, wp_pure]

/-- Whatever there is, what is read has stood in front. -/
theorem bufferGetOr_takes (msg : String) (len : Nat) (b : Bytes) :
    wp (bufferGetOr msg len) (fun front rest => front.length = len ∧ b = front ++ rest)
      (fun _ b' => b' = b) b := by
  rw [bufferGetOr, wp_read, bufferGetRet]
  by_cases hlen : len > b.length
  · rw [if_pos hlen]
    exact (wp_throw _).mpr rfl
  · rw [if_neg hlen]
    rw [wp_write, wp_pure]
    exact ⟨length_take_of_le (not_lt.mp hlen), (take_append_drop len b).symm⟩

def bufferGetChar : Get UInt8 := do
  pure ((← bufferGetOr "buffer_get_char: buffer error" 1).headD 0)

def bufferGetInt : Get UInt32 := do
  pure (getU32 (← bufferGetOr "buffer_get_int: buffer error" 4))

theorem wp_bufferGetInt {v : UInt32} {Q : UInt32 → Bytes → Prop} :
    wp bufferGetInt Q E (putU32 v ++ rest) ↔ Q v rest := by
  rw [bufferGetInt, wp_bind, wp_bufferGetOr _ (putU32_length v), wp_pure, getU32_putU32]

theorem bufferGetInt_takes :
    wp bufferGetInt (fun v rest => b = putU32 v ++ rest) (fun _ b' => b' = b) b := by
  rw [bufferGetInt]
  refine wp_seq (bufferGetOr_takes _ 4 b) fun front rest h => ?_
  rw [wp_pure, putU32_getU32 h.1]
  exact h.2

/-- `buffer_get_string`: a string of at most 256k. -/
def bufferGetString : Get Bytes := do
  let len ← bufferGetInt
  if len > 256 * 1024 then
    throw (.fatal "buffer_get_string: buffer error" [])
  else
    bufferGetOr "buffer_get_string: buffer error" len.toNat

theorem ofNat_length {b : Bytes} (h : b.length ≤ 256 * 1024) :
    (ofNat b.length).toNat = b.length ∧ ¬ofNat b.length > 256 * 1024 := by
  have hlen : (ofNat b.length).toNat = b.length :=
    toNat_ofNat_of_lt (lt_of_le_of_lt h (by decide))
  rw [gt_iff_lt, lt_iff_toNat_lt, hlen]
  exact ⟨rfl, not_lt.mpr h⟩

theorem wp_bufferGetString {b : Bytes} (h : b.length ≤ 256 * 1024) :
    wp bufferGetString Q E (putString b ++ rest) ↔ Q b rest := by
  obtain ⟨hlen, hshort⟩ := ofNat_length h
  rw [bufferGetString, wp_bind, putString, append_assoc, wp_bufferGetInt, if_neg hshort,
    wp_bufferGetOr _ hlen.symm]

theorem bufferGetString_takes :
    wp bufferGetString (fun str rest => str.length ≤ 256 * 1024 ∧ b = putString str ++ rest)
      any b := by
  rw [bufferGetString]
  refine wp_seq_any (bufferGetInt_takes b) fun len b1 h1 => ?_
  rw [wp_ite, wp_throw]
  refine ⟨fun _ => trivial, fun hshort => ?_⟩
  refine wp_weaken (bufferGetOr_takes _ len.toNat b1) fun str rest h => ?_
  rw [gt_iff_lt, lt_iff_toNat_lt, not_lt, ← h.1] at hshort
  refine ⟨hshort, ?_⟩
  rw [h1, h.2, putString, h.1, UInt32.ofNat_toNat, append_assoc]

def packetGetChar : Get UInt8 := do
  pure ((← bufferGetOr "buffer_get: buffer error" 1).headD 0)

def packetGetInt : Get UInt32 := bufferGetInt

def packetGetString : Get Bytes := bufferGetString

/-- `packet_get_string_ptr` -/
def packetGetStringPtr : Get Bytes := do
  let len ← bufferGetInt
  if len > 256 * 1024 then
    throw (.fatal "buffer_get_string_ptr: bad string length %u" [.num len.toNat])
  else
    bufferGetOr "buffer_consume: buffer error" len.toNat

theorem packetGetStringPtr_short :
    wp packetGetStringPtr (fun data _ => data.length < size) any b := by
  simp only [packetGetStringPtr, wp_bind]
  refine wp_intro (fun len b' _ => ?_) fun _ _ _ => trivial
  rw [wp_ite, wp_throw]
  refine ⟨fun _ => trivial, fun _ => ?_⟩
  refine wp_weaken (bufferGetOr_takes _ len.toNat b') fun data _ h => ?_
  rw [h.1]
  exact len.toNat_lt

/-- A string of the wire format is read back. -/
theorem wp_packetGetStringPtr {data : Bytes} (h : data.length ≤ 256 * 1024) :
    wp packetGetStringPtr Q E (putString data ++ rest) ↔ Q data rest := by
  obtain ⟨hlen, hshort⟩ := ofNat_length h
  rw [packetGetStringPtr, wp_bind, putString, append_assoc, wp_bufferGetInt, if_neg hshort,
    wp_bufferGetOr _ hlen.symm]

/-- `buffer_get_bignum2`: the number must not be negative and have at most 8k bytes. -/
def bufferGetBignum2 : Get Nat := do
  let len ← bufferGetInt
  if len > 256 * 1024 then
    throw (.fatal "buffer_get_bignum2: buffer error" [])
  else do
    let bin ← bufferGetOr "buffer_get_bignum2: buffer error" len.toNat
    if bin.headD 0 &&& 0x80 ≠ 0 ∨ bin.length > 8 * 1024 then
      throw (.fatal "buffer_get_bignum2: buffer error" [])
    else
      pure (beNat bin)

/-- The macro `packet_check_eom`. -/
def packetCheckEom : Get Unit := do
  if (← get).length > 0 then
    throw (.disconnect "Packet integrity error." [])
  else
    pure ()

theorem wp_packetCheckEom {Q : Unit → Bytes → Prop} : wp packetCheckEom Q E [] ↔ Q () [] := by
  rw [packetCheckEom, wp_read, if_neg (by simp), wp_pure]

/-! ## Reading what was written -/

/-- `g` takes the bytes `b`, and does not look at what stands behind them. -/
def Reads {α : Type} (g : Get α) (b : Bytes) : Prop :=
  ∀ rest, wp g (fun _ b' => b' = rest) (fun _ _ => False) (b ++ rest)

namespace Reads

variable {α β : Type} {b b' : Bytes}

theorem pure (a : α) : Reads (Pure.pure a) [] := fun _ => (wp_pure a).mpr rfl

theorem int : Reads bufferGetInt (putU32 v) := fun _ => wp_bufferGetInt.mpr rfl

theorem string (hlen : b.length ≤ 256 * 1024) : Reads bufferGetString (putString b) :=
  fun _ => (wp_bufferGetString hlen).mpr rfl

theorem bind {g : Get α} {k : α → Get β} (hg : Reads g b) (hk : ∀ a, Reads (k a) b') :
    Reads (g >>= k) (b ++ b') := by
  intro rest
  rw [wp_bind, append_assoc]
  refine wp_mono_total (hg (b' ++ rest)) fun a _ heq => ?_
  rw [heq]
  exact hk a rest

theorem int_bind {v : UInt32} {k : UInt32 → Get β} (hk : Reads (k v) b) :
    Reads (bufferGetInt >>= k) (putU32 v ++ b) := by
  intro rest
  rw [wp_bind, append_assoc, wp_bufferGetInt]
  exact hk rest

end Reads

/-! ## Transport messages

`packet_read_poll_seqnr` deals with four message types itself; `true` means that the
packet is returned to the caller. -/

def packetReadPoll (type : UInt8) : Get Bool := do
  if type = Ssh2Msg.ignore then
    pure false
  else if type = Ssh2Msg.debug then do
    let _ ← packetGetChar
    let _ ← packetGetString
    let _ ← packetGetString
    pure false
  else if type = Ssh2Msg.disconnect then do
    let _ ← packetGetInt
    let _ ← packetGetString
    throw (.exit 255)
  else if type = Ssh2Msg.unimplemented then do
    let _ ← packetGetInt
    pure false
  else
    pure true

end Shiesh
