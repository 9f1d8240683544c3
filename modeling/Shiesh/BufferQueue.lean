import Shiesh.Buffer

/-!
# Buffers as queues

Whatever is called on a buffer, its `contents` are a queue of bytes: the array, its growth
and its compaction are not seen.
-/

namespace Shiesh.Buffer

open Shiesh.Lib

variable {n : Nat} {α β : Type}

/-! ## The check and the allocation -/

theorem rewind_checkRestart (b : Buffer) (n : Nat) :
    (b.rewind.checkRestart n).2.rewind = (b.rewind.checkRestart n).2 := by
  by_cases hempty : b.offset = b.bytes.length
  · have hclear : b.rewind = b.clear := if_pos hempty
    have hstays : (b.clear.checkRestart n).2 = b.clear := by
      rw [checkRestart]
      split
      · rfl
      · split
        case h_1 b' hsome => simp [compact, clear] at hsome
        case h_2 hnone => rfl
    rw [hclear, hstays]
    rfl
  · have hlen : (b.rewind.checkRestart n).2.len = b.len :=
      len_of_contents ((checkRestart_end _ n).2.trans (contents_rewind b))
    have hle := b.offset_le
    rw [len, len] at hlen
    exact if_neg (by omega)

/-- **`buffer_check_alloc` is right about `buffer_append_space`**, and keeps the bytes. -/
theorem checkAlloc_agrees (hn : n ≤ bufferMaxChunk) (b : Buffer) :
    wp (checkAlloc n) (fun answer b' =>
      (answer = true ↔ ∃ r, b'.appendSpace n = .ok r) ∧ b'.contents = b.contents) never b := by
  simp only [checkAlloc, wp_bind, wp_get, wp_set, wp_pure]
  obtain ⟨hagain, hcontents⟩ := checkRestart_end b.rewind n
  refine ⟨?_, hcontents.trans (contents_rewind b)⟩
  rw [appendSpace, if_neg (not_lt.mpr hn), rewind_checkRestart]
  rcases restart_spec (b.rewind.checkRestart n).2 n with ⟨r, hr, htrue, -⟩ | ⟨e, he, hfalse, -⟩ <;>
    rw [hagain] at *
  · exact iff_of_true htrue ⟨r, hr⟩
  · rw [he, hfalse]
    exact iff_of_false Bool.false_ne_true fun h => by cases h.choose_spec

theorem checkAlloc_agrees_init :
    wp (checkAlloc 5000) (fun answer b' =>
      (answer = true ↔ ∃ r, b'.appendSpace 5000 = .ok r) ∧ b'.contents = []) never init :=
  checkAlloc_agrees (by decide) init

/-! ## The remaining operations -/

/-- `buffer_get_ret` -/
def getRet (n : Nat) : BufferM (Option Bytes) := do
  let b ← get
  if h : n ≤ b.len then do
    set (b.advance n h)
    pure (some (b.contents.take n))
  else
    pure none

/-- `buffer_consume_ret` -/
def consumeRet (n : Nat) : BufferM Bool := do
  pure (← getRet n).isSome

/-- `end -= bytes` -/
def dropEnd (b : Buffer) (n : Nat) (h : n ≤ b.len) : Buffer :=
  { b with
    bytes := b.bytes.take (b.bytes.length - n)
    offset_le := by
      have := b.offset_le
      rw [len] at h
      rw [List.length_take]
      omega
    lt_alloc := Nat.lt_of_le_of_lt (List.length_take_le' _ _) b.lt_alloc }

/-- `buffer_consume_end_ret` -/
def consumeEndRet (n : Nat) : BufferM Bool := do
  let b ← get
  if h : n ≤ b.len then do
    set (b.dropEnd n h)
    pure true
  else
    pure false

/-- `buffer_consume_end` -/
def consumeEnd (n : Nat) : BufferM Unit := do
  if ← consumeEndRet n then pure ()
  else throw (.fatal "buffer_consume_end: trying to get more bytes than in buffer" [])

inductive Number where
  | char
  | short
  | int
  | int64

def Number.width : Number → Nat
  | .char => 1
  | .short => 2
  | .int => 4
  | .int64 => 8

def Number.text : Number → String
  | .char => "buffer_get_char: buffer error"
  | .short => "buffer_get_short: buffer error"
  -- also for 64 bits
  | .int | .int64 => "buffer_get_int: buffer error"

def getNumber (k : Number) : BufferM Nat := do
  pure (beNat (← getOr k.text k.width))

def putNumber (k : Number) (v : Nat) : BufferM Unit := append (beBytes k.width v)

/-- `buffer_get_string_ret` -/
def getStringRet : BufferM (Option Bytes) := do
  let n ← getInt
  if n > 256 * 1024 then pure none else getRet n.toNat

/-- `buffer_get_string_ptr` -/
def getStringPtr : BufferM Bytes := do
  let n ← getInt
  if n > 256 * 1024 then
    throw (.fatal "buffer_get_string_ptr: bad string length %u" [.num n.toNat])
  else
    getOr "buffer_consume: buffer error" n.toNat

/-! ## The queue -/

/-- Programs on a queue of bytes; `none` is a call of `fatal`. -/
abbrev QueueM := StateT Bytes Option

namespace Queue

def front (n : Nat) : QueueM Bytes := fun q => bufferGetRet q n

def dropBack (n : Nat) : QueueM Bool := fun q =>
  some (if n ≤ q.length then (true, q.take (q.length - n)) else (false, q))

/-- What fails changes nothing. -/
def attempt (g : QueueM α) : QueueM (Option α) := fun q =>
  some ((g q).elim (none, q) fun r => (some r.1, r.2))

def int : QueueM UInt32 := do
  pure (getU32 (← front 4))

end Queue

open Queue

/-- The operations, with what they return -/
inductive Op : Type → Type where
  | init : Op Unit
  | clear : Op Unit
  | append (data : Bytes) : Op Unit
  -- the space may hold anything
  | appendSpace (space : Bytes) : Op Unit
  | get (n : Nat) : Op Bytes
  | getRet (n : Nat) : Op (Option Bytes)
  | consume (n : Nat) : Op Unit
  | consumeRet (n : Nat) : Op Bool
  | consumeEnd (n : Nat) : Op Unit
  | consumeEndRet (n : Nat) : Op Bool
  | getNumber (k : Number) : Op Nat
  | putNumber (k : Number) (v : Nat) : Op Unit
  | getString : Op Bytes
  | getStringRet : Op (Option Bytes)
  | getStringPtr : Op Bytes
  | putString (data : Bytes) : Op Unit

def Op.step : Op α → BufferM α
  | .init => set Buffer.init
  | .clear => modify Buffer.clear
  | .append data | .appendSpace data => Buffer.append data
  | .get n => getOr "buffer_get: buffer error" n
  | .getRet n => Buffer.getRet n
  | .consume n => Buffer.consume n
  | .consumeRet n => Buffer.consumeRet n
  | .consumeEnd n => Buffer.consumeEnd n
  | .consumeEndRet n => Buffer.consumeEndRet n
  | .getNumber k => Buffer.getNumber k
  | .putNumber k v => Buffer.putNumber k v
  | .getString => Buffer.getString
  | .getStringRet => Buffer.getStringRet
  | .getStringPtr => Buffer.getStringPtr
  | .putString data => Buffer.putString data

/-- What an operation does to the bytes -/
def Op.queue : Op α → QueueM α
  | .init | .clear => set ([] : Bytes)
  | .append data | .appendSpace data => modify (· ++ data)
  | .get n => front n
  | .getRet n => attempt (front n)
  | .consume n => do let _ ← front n; pure ()
  | .consumeRet n => do pure (← attempt (front n)).isSome
  | .consumeEnd n => do if ← dropBack n then pure () else failure
  | .consumeEndRet n => dropBack n
  | .getNumber k => do pure (beNat (← front k.width))
  | .putNumber k v => modify (· ++ beBytes k.width v)
  | .getString | .getStringPtr => do
    let n ← int
    if n > 256 * 1024 then failure else front n.toNat
  | .getStringRet => do
    let n ← int
    if n > 256 * 1024 then pure none else attempt (front n.toNat)
  | .putString data => do
    modify (· ++ putU32 (UInt32.ofNat data.length))
    modify (· ++ data)

/-- What on a queue `q` comes to append `n` bytes to the queue `q'` -/
abbrev Appending := (q : Bytes) → (n : Nat) → (q' : Bytes) → Prop

/-- The operations that append, to the queue that they find, or behind a length field -/
def Op.Appends (q : Bytes) (n : Nat) (q' : Bytes) : Op α → Prop
  | .append data | .appendSpace data => n = data.length ∧ q' = q
  | .putNumber k _ => n = k.width ∧ q' = q
  | .putString data =>
    n = 4 ∧ q' = q ∨ n = data.length ∧ q' = q ++ putU32 (UInt32.ofNat data.length)
  | _ => False

/-- `m` does on the buffer what `g` does on the queue, unless there is no space for what `A` says
it appends. -/
def Follows (m : BufferM α) (g : QueueM α) (A : Appending := fun _ _ _ => False) : Prop :=
  ∀ b : Buffer, wp m (fun a b' => g b.contents = some (a, b'.contents))
    (fun e b' => g b.contents = none ∨ ∃ n, A b.contents n b'.contents ∧ NoSpace n e b') b

namespace Follows

variable {A : Appending} {m : BufferM α} {g : QueueM α} {k : α → BufferM β}

theorem mono {A' : Appending} (h : Follows m g A)
    (hA : ∀ q n q', A q n q' → A' q n q') : Follows m g A' := fun b =>
  wp_mono (h b) (fun _ _ h => h) fun _ _ h => h.imp_right fun hfull =>
    hfull.imp fun _ hn => ⟨hA _ _ _ hn.1, hn.2⟩

theorem pure (a : α) : Follows (Pure.pure a) (Pure.pure a) A := fun _ => (wp_pure a).mpr rfl

theorem fatal (e : Halt) : Follows (α := α) (throw e) failure :=
  fun _ => (wp_throw e).mpr (.inl rfl)

theorem bind {h : α → QueueM β}
    {B : α → Appending} (hm : Follows m g A) (hk : ∀ a, Follows (k a) (h a) (B a)) :
    Follows (m >>= k) (g >>= h)
      (fun q n q' => A q n q' ∨ ∃ a q₁, g q = some (a, q₁) ∧ B a q₁ n q') := by
  intro b
  have hbind : (g >>= h) b.contents = (g b.contents).bind fun r => h r.1 r.2 := rfl
  rw [wp_bind, hbind]
  refine wp_mono (hm b) (fun a b1 h1 => ?_) fun e b1 h1 => ?_
  · rw [h1]
    refine wp_mono (hk a b1) (fun _ _ h => h) fun e b2 h2 => h2.imp_right fun hfull => ?_
    obtain ⟨n, hn, hspace⟩ := hfull
    exact ⟨n, .inr ⟨a, b1.contents, h1, hn⟩, hspace⟩
  · rcases h1 with hnone | ⟨n, hn, hspace⟩
    · rw [hnone]
      exact .inl rfl
    · exact .inr ⟨n, .inl hn, hspace⟩

/-- What reads only -/
theorem seq {h : α → QueueM β}
    (hm : Follows m g) (hk : ∀ a, Follows (k a) (h a)) : Follows (m >>= k) (g >>= h) :=
  (bind hm hk).mono fun _ _ _ h => h.elim id fun hlater => hlater.choose_spec.choose_spec.2

theorem front (msg : String) (n : Nat) : Follows (getOr msg n) (front n) := by
  intro b
  have hfront : Queue.front n b.contents = bufferGetRet b.contents n := rfl
  rw [hfront, bufferGetRet, contents_length]
  refine wp_mono (getOr_spec msg n b) (fun r b' h => ?_) fun _ _ h => .inl (if_pos h.2)
  rw [if_neg (not_lt.mpr h.1), h.2.1, h.2.2]

theorem attempt_front (n : Nat) : Follows (getRet n) (attempt (Queue.front n)) := by
  intro b
  have hfront : attempt (Queue.front n) b.contents =
    some ((bufferGetRet b.contents n).elim (none, b.contents) fun r => (some r.1, r.2)) := rfl
  rw [hfront, bufferGetRet, contents_length, getRet, wp_read]
  split
  case isTrue h =>
    rw [wp_write, wp_pure, if_neg (not_lt.mpr h)]
    simp only [contents, advance, List.drop_drop, Option.elim]
  case isFalse h =>
    rw [wp_pure, if_pos (Nat.lt_of_not_le h)]
    rfl

theorem append (data : Bytes) : Follows (append data) (modify (· ++ data))
    (fun q n q' => n = data.length ∧ q' = q) := fun b =>
  wp_mono (append_result data b) (fun _ _ h => h.1 ▸ rfl) fun _ _ h =>
    .inr ⟨_, ⟨rfl, h.1 ▸ rfl⟩, h.1 ▸ h.2⟩

theorem dropBack (n : Nat) : Follows (consumeEndRet n) (Queue.dropBack n) := by
  intro b
  rw [Queue.dropBack, contents_length, consumeEndRet, wp_read]
  split
  case isTrue h =>
    rw [wp_write, wp_pure]
    simp only [contents, dropEnd, List.drop_take, len]
    rw [Nat.sub_right_comm]
  case isFalse h => exact (wp_pure _).mpr rfl

theorem int : Follows getInt Queue.int := seq (front _ 4) fun _ => pure _

theorem ite {c : Prop} [Decidable c] {m m' : BufferM α} {g g' : QueueM α} (hm : Follows m g)
    (hm' : Follows m' g') : Follows (if c then m else m') (if c then g else g') := by
  split
  · exact hm
  · exact hm'

end Follows

theorem step_follows (op : Op α) : Follows op.step op.queue fun q n q' => op.Appends q n q' := by
  cases op with
  | init => exact fun _ => (wp_set _).mpr rfl
  | clear => exact fun _ => (wp_modify _).mpr rfl
  | append data | appendSpace data => exact .append data
  | putNumber k v =>
    refine (Follows.append _).mono fun _ _ _ h => ?_
    rwa [beBytes_length] at h
  | get n => exact .front _ n
  | getRet n => exact .attempt_front n
  | consume n => exact .seq (.front _ n) fun _ => .pure _
  | consumeRet n => exact .seq (.attempt_front n) fun _ => .pure _
  | consumeEnd n => exact .seq (.dropBack n) fun _ => .ite (.pure _) (.fatal _)
  | consumeEndRet n => exact .dropBack n
  | getNumber k => exact .seq (.front _ _) fun _ => .pure _
  | getString | getStringPtr => exact .seq .int fun _ => .ite (.fatal _) (.front _ _)
  | getStringRet => exact .seq .int fun _ => .ite (.pure _) (.attempt_front _)
  | putString data =>
    refine (Follows.bind (.append _) fun _ => .append data).mono fun q n q' h => ?_
    obtain ⟨hn, hq⟩ | ⟨_, _, hfield, hn, hq⟩ := h
    · exact .inl ⟨by rw [hn, putU32_length], hq⟩
    · cases hfield
      exact .inr ⟨hn, hq⟩

/-- Operations one after the other, each chosen by what those before returned -/
inductive Program (α : Type) : Type 1 where
  | ret (a : α)
  | call {β : Type} (op : Op β) (next : β → Program α)

namespace Program

def run : Program α → BufferM α
  | ret a => pure a
  | call op next => do (next (← op.step)).run

def queue : Program α → QueueM α
  | ret a => pure a
  | call op next => do (next (← op.queue)).queue

/-- In the course of the program `n` bytes are to be appended, when the queue is `q'`. -/
def Appends : Program α → Appending
  | ret _, _, _, _ => False
  | call op next, q, n, q' =>
    op.Appends q n q' ∨ ∃ a q₁, op.queue q = some (a, q₁) ∧ (next a).Appends q₁ n q'

/-- **A buffer is a queue of bytes**, until there is no space for what is to be appended. -/
theorem run_follows (p : Program α) (b : Buffer) :
    wp p.run
      (fun a b' => p.queue b.contents = some (a, b'.contents) ∧
        b'.offset ≤ b'.bytes.length ∧ b'.bytes.length < b'.alloc ∧ b'.alloc ≤ bufferMaxLen)
      (fun e b' => (p.queue b.contents = none ∨
          ∃ n, p.Appends b.contents n b'.contents ∧ NoSpace n e b') ∧
        b'.offset ≤ b'.bytes.length ∧ b'.bytes.length < b'.alloc ∧ b'.alloc ≤ bufferMaxLen) b := by
  have hfollows : Follows p.run p.queue p.Appends := by
    induction p with
    | ret a => exact .pure a
    | call op next ih => exact .bind (step_follows op) ih
  exact wp_mono (hfollows b) (fun _ b' h => ⟨h, b'.offset_le, b'.lt_alloc, b'.alloc_le⟩)
    fun _ b' h => ⟨h, b'.offset_le, b'.lt_alloc, b'.alloc_le⟩

end Program

end Shiesh.Buffer
