import Shiesh.Wire

/-!
# Buffers

`buffer.cpp`: byte queues in an array that grows up to 10 MB, and the readers and writers
of `bufaux.cpp` on them that the channels use.

`contents` is what a buffer is for. Every operation is specified by what it does to it;
where the bytes are in the array is known in this module only. Memory is always there:
`xmalloc` and `xrealloc` do not fail.
-/

namespace Shiesh

open Shiesh.Lib List UInt32

def bufferMaxChunk : Nat := 0x100000

def bufferMaxLen : Nat := 0xa00000

def bufferAllocsz : Nat := 0x008000

/-- `bytes` is `buf` up to `end`. -/
structure Buffer where
  bytes : Bytes
  offset : Nat
  alloc : Nat
  offset_le : offset ≤ bytes.length
  lt_alloc : bytes.length < alloc
  alloc_le : alloc ≤ bufferMaxLen
  deriving DecidableEq

abbrev BufferM := EStateM Halt Buffer

namespace Buffer

/-- `buffer_init` -/
def init : Buffer where
  bytes := []
  offset := 0
  alloc := 4096
  offset_le := Nat.le_refl 0
  lt_alloc := by decide
  alloc_le := by decide

/-- What has been appended and not been taken yet. -/
def contents (b : Buffer) : Bytes := b.bytes.drop b.offset

/-- `buffer_len` -/
def len (b : Buffer) : Nat := b.bytes.length - b.offset

@[simp] theorem contents_length (b : Buffer) : b.contents.length = b.len := length_drop

theorem len_lt_size (b : Buffer) : b.len < size := by
  have hlen := b.lt_alloc
  have halloc := b.alloc_le
  simp only [bufferMaxLen] at halloc
  rw [len, size]
  omega

@[simp] theorem contents_init : init.contents = [] := rfl

/-! ## Appending -/

/-- `buffer_clear` -/
def clear (b : Buffer) : Buffer :=
  { b with
    bytes := []
    offset := 0
    offset_le := Nat.le_refl 0
    lt_alloc := Nat.zero_lt_of_lt b.lt_alloc }

/-- An empty buffer is used from its beginning. -/
def rewind (b : Buffer) : Buffer := if b.offset = b.bytes.length then b.clear else b

/-- `buffer_compact` -/
def compact (b : Buffer) : Option Buffer :=
  if b.offset > min b.alloc bufferMaxChunk then
    some { b with
      bytes := b.contents
      offset := 0
      offset_le := Nat.zero_le _
      lt_alloc := by
        rw [contents_length, len]
        exact Nat.lt_of_le_of_lt (Nat.sub_le _ _) b.lt_alloc }
  else
    none

def roundup (x y : Nat) : Nat := (x + (y - 1)) / y * y

theorem le_roundup_allocsz (x : Nat) : x ≤ roundup x bufferAllocsz := by
  simp only [roundup, bufferAllocsz]
  omega

/-- `xrealloc` to a larger size -/
def grow (b : Buffer) (newlen : Nat) (hle : b.alloc ≤ newlen) (hmax : newlen ≤ bufferMaxLen) :
    Buffer :=
  { b with alloc := newlen, lt_alloc := Nat.lt_of_lt_of_le b.lt_alloc hle, alloc_le := hmax }

/-- A buffer that has room for `n` more bytes. -/
def WithRoom (n : Nat) : Type := { b : Buffer // b.bytes.length + n < b.alloc }

/-- The loop at `restart` in `buffer_append_space`. It is left after one compaction and one
enlargement at most. -/
def restart (b : Buffer) (n : Nat) : Except Halt (WithRoom n) :=
  if hroom : b.bytes.length + n < b.alloc then .ok ⟨b, hroom⟩
  else
    match _hcompact : b.compact with
    | some b' => restart b' n
    | none =>
      let newlen := roundup (b.alloc + n) bufferAllocsz
      if hmax : newlen > bufferMaxLen then
        .error (.fatal "buffer_append_space: alloc %u not supported" [.num newlen])
      else
        restart (b.grow newlen
          (Nat.le_trans (Nat.le_add_right _ _) (le_roundup_allocsz _)) (Nat.le_of_not_gt hmax)) n
termination_by b.offset + if b.bytes.length + n < b.alloc then 0 else 1
decreasing_by
  · rw [compact] at _hcompact
    split at _hcompact
    case isTrue hfar =>
      cases _hcompact
      have := b.lt_alloc
      have := b.offset_le
      simp only [bufferMaxChunk] at hfar
      split <;> simp only <;> omega
    case isFalse => cases _hcompact
  · have hlen := b.lt_alloc
    have := le_roundup_allocsz (b.alloc + n)
    rw [if_pos (by simp only [grow]; omega), if_neg hroom]
    simp only [grow]
    omega

/-- `buffer_append_space`, before `end` is moved -/
def appendSpace (b : Buffer) (n : Nat) : Except Halt (WithRoom n) :=
  if n > bufferMaxChunk then
    .error (.fatal "buffer_append_space: len %u not supported" [.num n])
  else
    restart b.rewind n

/-- `memcpy` to the space -/
def write (data : Bytes) (b : WithRoom data.length) : Buffer :=
  { b.1 with
    bytes := b.1.bytes ++ data
    offset_le := by
      rw [length_append]
      exact Nat.le_add_right_of_le b.1.offset_le
    lt_alloc := by
      rw [length_append]
      exact b.2 }

/-- `buffer_append` -/
def append (data : Bytes) : BufferM Unit := do
  let b ← liftE ((← get).appendSpace data.length)
  set (write data b)

theorem contents_rewind (b : Buffer) : b.rewind.contents = b.contents := by
  rw [rewind]
  split
  case isTrue hempty => simp [contents, clear, hempty]
  case isFalse => rfl

variable {b b' : Buffer} {n : Nat} {data : Bytes}

theorem contents_of_compact (h : b.compact = some b') : b'.contents = b.contents := by
  rw [compact] at h
  split at h
  case isTrue =>
    cases h
    rfl
  case isFalse => cases h

theorem len_of_contents (h : b'.contents = b.contents) : b'.len = b.len := by
  rw [← contents_length, h, contents_length]

/-- The loop at `restart` in `buffer_check_alloc`: the answer and the buffer. -/
def checkRestart (b : Buffer) (n : Nat) : Bool × Buffer :=
  if b.bytes.length + n < b.alloc then (true, b)
  else
    match _hcompact : b.compact with
    | some b' => checkRestart b' n
    | none => (roundup (b.alloc + n) bufferAllocsz ≤ bufferMaxLen, b)
termination_by b.offset
decreasing_by
  rw [compact] at _hcompact
  split at _hcompact
  case isTrue hfar =>
    cases _hcompact
    exact Nat.zero_lt_of_lt hfar
  case isFalse => cases _hcompact

/-- There is room exactly if `buffer_check_alloc` says so. Making room moves the bytes and keeps
them. It fails only for more than a chunk, or in a buffer with more than 6 MB: without a compaction
the bytes in front of `offset` are one chunk at most. -/
theorem restart_spec (b : Buffer) (n : Nat) :
    (∃ r, restart b n = .ok r ∧ (b.checkRestart n).1 = true ∧ r.1.contents = b.contents) ∨
      ∃ e, restart b n = .error e ∧ (b.checkRestart n).1 = false ∧
        ¬(b.len ≤ 6 * bufferMaxChunk ∧ n ≤ bufferMaxChunk) := by
  induction b using checkRestart.induct n with
  | case1 b hroom =>
    rw [restart, dif_pos hroom, checkRestart, if_pos hroom]
    exact .inl ⟨_, rfl, rfl, rfl⟩
  | case2 b hroom b' hcompact ih =>
    rw [restart, dif_neg hroom, checkRestart, if_neg hroom]
    split
    case h_1 b₁ hsome =>
      cases hsome.symm.trans hcompact
      rw [← contents_of_compact hcompact, ← len_of_contents (contents_of_compact hcompact)]
      exact ih
    case h_2 hnone => cases hnone.symm.trans hcompact
  | case3 b hroom hcompact =>
    rw [restart, dif_neg hroom, checkRestart, if_neg hroom]
    split
    case h_1 b₁ hsome => cases hsome.symm.trans hcompact
    case h_2 hnone =>
      have hlen := b.lt_alloc
      have hle := le_roundup_allocsz (b.alloc + n)
      dsimp only
      split
      case isTrue hmax =>
        refine .inr ⟨_, rfl, decide_eq_false (not_le.mpr hmax), fun h => ?_⟩
        have hnear : b.offset ≤ bufferMaxChunk := by
          rw [compact] at hcompact
          split at hcompact
          case isTrue => cases hcompact
          case isFalse hfar => exact le_trans (Nat.le_of_not_gt hfar) (min_le_right _ _)
        have := b.offset_le
        simp only [roundup, bufferAllocsz, bufferMaxLen, bufferMaxChunk, len] at *
        omega
      case isFalse hmax =>
        -- once it has grown, the buffer has room
        rw [restart, dif_pos (by simp only [grow]; omega)]
        exact .inl ⟨_, rfl, decide_eq_true (Nat.le_of_not_gt hmax), rfl⟩

theorem contents_write (data : Bytes) (b : WithRoom data.length) :
    (write data b).contents = b.1.contents ++ data :=
  drop_append_of_le_length b.1.offset_le

/-- The answer of `buffer_check_alloc` -/
def hasRoom (n : Nat) (b : Buffer) : Bool := (b.rewind.checkRestart n).1

/-- `buffer_append` calls `fatal`: for more than a chunk, or behind more than 6 MB. -/
def NoSpace (n : Nat) (e : Halt) (b : Buffer) : Prop :=
  (e = .fatal "buffer_append_space: len %u not supported" [.num n] ∧ bufferMaxChunk < n) ∨
    (b.hasRoom n = false ∧ 6 * bufferMaxChunk < b.len)

theorem append_result (data : Bytes) (b : Buffer) :
    wp (append data)
      (fun _ b' => b'.contents = b.contents ++ data ∧ data.length ≤ bufferMaxChunk ∧
        b.hasRoom data.length = true)
      (fun e b' => b' = b ∧ NoSpace data.length e b) b := by
  rw [append, wp_read, wp_bind, appendSpace]
  split
  case isTrue hlong => exact (wp_throw _).mpr ⟨rfl, .inl ⟨rfl, hlong⟩⟩
  case isFalse hle =>
    rw [not_lt] at hle
    rcases restart_spec b.rewind data.length with ⟨r, hr, htrue, hr'⟩ | ⟨e, he, hfalse, hfull⟩
    · rw [hr, liftE, wp_pure, wp_set, contents_write, hr', contents_rewind]
      exact ⟨rfl, hle, htrue⟩
    · rw [he, liftE, wp_throw]
      rw [len_of_contents (contents_rewind b)] at hfull
      exact ⟨rfl, .inr ⟨hfalse, not_le.mp fun hlen => hfull ⟨hlen, hle⟩⟩⟩

theorem append_spec (data : Bytes) (b : Buffer) :
    wp (append data) (fun _ b' => b'.contents = b.contents ++ data) (fun _ b' => b' = b) b :=
  wp_mono (append_result data b) (fun _ _ h => h.1) fun _ _ h => h.1

theorem append_chunk (data : Bytes) (b : Buffer) :
    wp (append data) (fun _ _ => data.length ≤ bufferMaxChunk) any b :=
  wp_weaken (append_result data b) fun _ _ h => h.2.1

theorem append_fits (hlen : b.len ≤ 6 * bufferMaxChunk) (hdata : data.length ≤ bufferMaxChunk) :
    wp (append data) (fun _ b' => b'.contents = b.contents ++ data) never b := by
  refine wp_mono (append_result data b) (fun _ _ h => h.1) fun e _ h => ?_
  rcases h.2 with hlong | hfull
  · exact not_lt.mpr hdata hlong.2
  · exact not_lt.mpr hlen hfull.2

/-- Bytes are appended exactly if `buffer_check_alloc` says that there is room. -/
theorem append_room (hdata : data.length ≤ bufferMaxChunk) (b : Buffer) :
    wp (append data) (fun _ b' => b'.contents = b.contents ++ data ∧ b.hasRoom data.length = true)
      (fun _ _ => b.hasRoom data.length = false) b :=
  wp_mono (append_result data b) (fun _ _ h => ⟨h.1, h.2.2⟩) fun _ _ h =>
    h.2.elim (fun hlong => absurd hlong.2 (not_lt.mpr hdata)) And.left

theorem hasRoom_of_len {n : Nat} (hlen : b.len ≤ 6 * bufferMaxChunk) (hn : n ≤ bufferMaxChunk) :
    b.hasRoom n = true := by
  have hdata : (replicate n (0 : UInt8)).length ≤ bufferMaxChunk := by rwa [length_replicate]
  obtain ⟨_, _, hok, -⟩ := ok_of_wp_total (append_fits hlen hdata)
  have hroom := ((wp_of_ok hok).mp (append_room hdata b)).2
  rwa [length_replicate] at hroom

@[simp] theorem contents_clear (b : Buffer) : b.clear.contents = [] := rfl

/-! ## buffer_check_alloc -/

def checkAlloc (n : Nat) : BufferM Bool := do
  let (answer, b) := (← get).rewind.checkRestart n
  set b
  pure answer

/-- A buffer that has been checked is not moved again. -/
theorem checkRestart_end (b : Buffer) (n : Nat) :
    (b.checkRestart n).2.checkRestart n = b.checkRestart n ∧
      (b.checkRestart n).2.contents = b.contents := by
  induction b using checkRestart.induct n with
  | case1 b hroom =>
    have hself : b.checkRestart n = (true, b) := by rw [checkRestart, if_pos hroom]
    rw [hself, hself]
    exact ⟨rfl, rfl⟩
  | case2 b hroom b' hcompact ih =>
    have hnext : b.checkRestart n = b'.checkRestart n := by
      rw [checkRestart, if_neg hroom]
      split
      case h_1 b₁ hsome =>
        cases hsome.symm.trans hcompact
        rfl
      case h_2 hnone => cases hnone.symm.trans hcompact
    rw [hnext, ← contents_of_compact hcompact]
    exact ih
  | case3 b hroom hcompact =>
    have hself : (b.checkRestart n).2 = b := by
      rw [checkRestart, if_neg hroom]
      split
      case h_1 b₁ hsome => cases hsome.symm.trans hcompact
      case h_2 hnone => rfl
    rw [hself]
    exact ⟨rfl, rfl⟩

theorem checkAlloc_spec (n : Nat) (b : Buffer) :
    wp (checkAlloc n) (fun _ b' => b'.contents = b.contents) never b := by
  simp only [checkAlloc, wp_bind, wp_get, wp_set, wp_pure]
  rw [(checkRestart_end _ n).2, contents_rewind]

theorem hasRoom_zero (b : Buffer) : b.hasRoom 0 = true := by
  have hroom : b.rewind.bytes.length + 0 < b.rewind.alloc := b.rewind.lt_alloc
  rw [hasRoom, checkRestart, if_pos hroom]

/-! ## Taking bytes -/

def advance (b : Buffer) (n : Nat) (h : n ≤ b.len) : Buffer :=
  { b with
    offset := b.offset + n
    offset_le := by
      have := b.offset_le
      rw [len] at h
      omega }

/-- `buffer_get_ret`, with the `fatal` text of the caller -/
def getOr (msg : String) (n : Nat) : BufferM Bytes := do
  let b ← get
  if h : n ≤ b.len then do
    set (b.advance n h)
    pure (b.contents.take n)
  else
    throw (.fatal msg [])

/-- `buffer_consume` -/
def consume (n : Nat) : BufferM Unit := do
  let _ ← getOr "buffer_consume: buffer error" n

def getInt : BufferM UInt32 := do
  pure (getU32 (← getOr "buffer_get_int: buffer error" 4))

/-- `buffer_get_string`: a string of at most 256k -/
def getString : BufferM Bytes := do
  let n ← getInt
  if n > 256 * 1024 then
    throw (.fatal "buffer_get_string: buffer error" [])
  else
    getOr "buffer_get_string: buffer error" n.toNat

def putInt (v : UInt32) : BufferM Unit := append (putU32 v)

def putString (data : Bytes) : BufferM Unit := do
  putInt (UInt32.ofNat data.length)
  append data

theorem getOr_spec (msg : String) (n : Nat) (b : Buffer) :
    wp (getOr msg n)
      (fun r b' => n ≤ b.len ∧ r = b.contents.take n ∧ b'.contents = b.contents.drop n)
      (fun _ b' => b' = b ∧ b.len < n) b := by
  simp only [getOr, wp_bind, wp_get]
  split
  case isTrue h =>
    rw [wp_write, wp_pure]
    exact ⟨h, rfl, (by simp only [contents, advance, drop_drop])⟩
  case isFalse h =>
    rw [wp_throw]
    exact ⟨rfl, Nat.lt_of_not_le h⟩

theorem consume_spec (n : Nat) (b : Buffer) :
    wp (consume n) (fun _ b' => n ≤ b.len ∧ b'.contents = b.contents.drop n)
      (fun _ b' => b' = b ∧ b.len < n) b := by
  rw [consume]
  refine wp_seq (getOr_spec _ n b) fun _ b' h => ?_
  rw [wp_pure]
  exact ⟨h.1, h.2.2⟩

theorem getInt_spec (b : Buffer) :
    wp getInt
      (fun v b' => 4 ≤ b.len ∧ v = getU32 (b.contents.take 4) ∧ b'.contents = b.contents.drop 4)
      (fun _ b' => b' = b ∧ b.len < 4) b := by
  rw [getInt]
  refine wp_seq (getOr_spec _ 4 b) fun r b' h => ?_
  rw [wp_pure]
  exact ⟨h.1, congrArg getU32 h.2.1, h.2.2⟩

theorem putString_spec (data : Bytes) (b : Buffer) :
    wp (putString data) (fun _ b' => b'.contents = b.contents ++ Shiesh.putString data)
      any b := by
  rw [putString, putInt]
  refine wp_seq_any (append_spec _ b) fun _ b1 h1 => ?_
  refine wp_weaken (append_spec _ b1) fun _ b2 h2 => ?_
  rw [h2, h1, Shiesh.putString, append_assoc]

/-- A string that is put is at most a chunk; one that cannot be put leaves its length behind, or
nothing. -/
theorem putString_error (data : Bytes) (b : Buffer) :
    wp (putString data) (fun _ _ => data.length ≤ bufferMaxChunk)
      (fun _ b' => ∃ rest, rest.length ≤ 4 ∧ b'.contents = b.contents ++ rest) b := by
  simp only [putString, putInt, wp_bind]
  refine wp_mono (append_spec _ b) (fun _ b1 h1 => ?_) fun _ b1 h1 => ⟨[], Nat.zero_le _, ?_⟩
  · refine wp_mono (wp_and (append_spec _ b1) (append_chunk _ b1))
      (fun _ _ h => h.2) fun _ b2 h2 => ?_
    rw [h2.1]
    exact ⟨_, Nat.le_of_eq (putU32_length _), h1⟩
  · rw [h1, append_nil]

theorem putInt_fits (v : UInt32) (hlen : b.len ≤ 6 * bufferMaxChunk) :
    wp (putInt v) (fun _ b' => b'.contents = b.contents ++ putU32 v) never b :=
  append_fits hlen (by rw [putU32_length]; decide)

theorem putString_fits (hlen : b.len + 4 ≤ 6 * bufferMaxChunk)
    (hdata : data.length ≤ bufferMaxChunk) :
    wp (putString data) (fun _ b' => b'.contents = b.contents ++ Shiesh.putString data)
      never b := by
  rw [putString]
  refine wp_seq_total (putInt_fits _ (by omega)) fun _ b1 h1 => ?_
  have hlen1 : b1.len = b.len + 4 := by
    rw [← contents_length, h1, length_append, contents_length, putU32_length]
  refine wp_mono_total (append_fits (by omega) hdata) fun _ b2 h2 => ?_
  rw [h2, h1, Shiesh.putString, append_assoc]

/-- Of a string that is longer than a chunk only the length comes into the buffer. -/
theorem putString_long (hlen : b.len ≤ 6 * bufferMaxChunk) (hdata : bufferMaxChunk < data.length) :
    wp (putString data) never
      (fun _ b' => b'.contents = b.contents ++ putU32 (ofNat data.length)) b := by
  rw [putString]
  refine wp_seq_total (putInt_fits _ hlen) fun _ b1 h1 => ?_
  rw [append, wp_read, wp_bind, appendSpace, if_pos hdata, liftE, wp_throw]
  exact h1

/-- A string that was put is taken whole. When it is too long, its length is gone and the
string stays. -/
theorem getString_spec {rest : Bytes} (hlen : data.length < size) (b : Buffer)
    (h : b.contents = Shiesh.putString data ++ rest) :
    wp getString (fun r b' => r = data ∧ b'.contents = rest)
      (fun _ b' => b'.contents = data ++ rest ∧ 256 * 1024 < data.length) b := by
  have hhead : b.contents.take 4 = putU32 (ofNat data.length) := by
    rw [h, Shiesh.putString, append_assoc]
    exact take_left' (putU32_length _)
  have htail : b.contents.drop 4 = data ++ rest := by
    rw [h, Shiesh.putString, append_assoc]
    exact drop_left' (putU32_length _)
  have htoNat : (ofNat data.length).toNat = data.length := toNat_ofNat_of_lt hlen
  have hfour : 4 ≤ b.len := by
    rw [← contents_length, h]
    simp only [length_append, Shiesh.putString_length]
    omega
  simp only [getString, getInt, wp_bind, wp_pure]
  refine wp_mono (getOr_spec _ 4 b) ?_ fun _ _ hshort => absurd hshort.2 (not_lt.mpr hfour)
  intro r b1 h1
  rw [h1.2.1, hhead, getU32_putU32, wp_ite, wp_throw, h1.2.2, htail]
  refine ⟨fun hlong => ⟨rfl, ?_⟩, fun _ => ?_⟩
  · have hlong' := lt_iff_toNat_lt.mp hlong
    rw [htoNat] at hlong'
    exact hlong'
  -- behind the length there is the whole string
  refine wp_mono (getOr_spec _ _ b1) ?_ fun _ b2 hshort => ?_
  · intro r2 b2 h2
    rw [h2.2.1, h2.2.2, h1.2.2, htail, htoNat]
    exact ⟨take_left, drop_left⟩
  · have hless := hshort.2
    rw [← contents_length, h1.2.2, htail, htoNat, length_append] at hless
    omega

end Buffer

end Shiesh
