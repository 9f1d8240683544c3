import Shiesh.Channels.Stock
import Shiesh.Subsystems.Shell

/-!
# Input for the Child

A message is written to the child in pieces of at most 80 bytes, with a line feed behind every
carriage return. The pieces together are the whole message, and the index into the buffer of 80
bytes is always one of the buffer: a byte may take two places, but there are always two left.

The calls, with what they return, are written down beside the system.
-/

namespace Shiesh.Subsystems

open Shiesh.Lib Shiesh.Channels List

variable {ω : Type}

/-! ## §1 Calls -/

/-- A call, with what it returns -/
inductive Call where
  | writeFile (data : Bytes) (nBytesWritten : Option UInt32)
  | flushFileBuffers (res : Bool)
  deriving DecidableEq, Repr

/-- The call has succeeded, and in full. -/
def Call.succeeds : Call → Bool
  | .writeFile data nBytesWritten => nBytesWritten.map UInt32.toNat = some data.length
  | .flushFileBuffers res => res

def Call.data : Call → Option Bytes
  | .writeFile data _ => some data
  | .flushFileBuffers _ => none

/-- The same system, with the calls that have been made -/
def Child.recording (os : Child ω) : Child (ω × List Call) where
  writeFile data := fun w =>
    let r := os.writeFile data w.1
    (r.1, r.2, w.2 ++ [.writeFile data r.1])
  flushFileBuffers := fun w =>
    let r := os.flushFileBuffers w.1
    (r.1, r.2, w.2 ++ [.flushFileBuffers r.1])
  readFile := fun w => ((os.readFile w.1).1, (os.readFile w.1).2, w.2)

/-- A line feed behind every carriage return -/
def crlf (msg : Bytes) : Bytes := msg.flatMap fun c => if c = 13 then [13, 10] else [c]

/-- The bytes written to the child -/
def writes (calls : List Call) : List Bytes := calls.filterMap Call.data

theorem writes_append (calls calls' : List Call) :
    writes (calls ++ calls') = writes calls ++ writes calls' := filterMap_append

/-! ## §2 What has been done -/

/-- Between the two states calls have been made that all succeeded: of the bytes `given` they have
written all but `left`. These bytes have been echoed. -/
structure Passes (given left echoed : Bytes) (calls : List Call) (s s' : Shell (ω × List Call)) :
    Prop where
  record : s'.world.2 = s.world.2 ++ calls
  written : (writes calls).flatten ++ left = given
  short : ∀ data ∈ writes calls, data.length ≤ sizeofBuf
  succeed : ∀ c ∈ calls, c.succeeds = true
  echo : s'.toChannel.writeBuf.contents =
    s.toChannel.writeBuf.contents ++ frames (echoed.map fun c => [c])

/-- It has ended with an exception, because of a call or because there was no room for the echo. -/
structure Stopped (hasRoom : Prop) (e : ShellError) (s s' : Shell (ω × List Call)) : Prop where
  inBounds : e ≠ .outOfBounds
  cause : ∃ calls, s'.world.2 = s.world.2 ++ calls ∧
    (∀ data ∈ writes calls, data.length ≤ sizeofBuf) ∧
    ((∃ c ∈ calls, c.succeeds = false) ∨ ¬hasRoom)

section Rules

variable {given left left' echoed echoed' : Bytes} {calls calls' : List Call} {R R' : Prop}
  {e : ShellError} {s s1 s' : Shell (ω × List Call)}

theorem Passes.refl (given : Bytes) (s : Shell (ω × List Call)) : Passes given given [] [] s s where
  record := (append_nil _).symm
  written := rfl
  short _ h := absurd h not_mem_nil
  succeed _ h := absurd h not_mem_nil
  echo := (append_nil _).symm

/-- Behind what is left there may be more to write. -/
theorem Passes.trans (more : Bytes) (h : Passes given left echoed calls s s1)
    (h' : Passes (left ++ more) left' echoed' calls' s1 s') :
    Passes (given ++ more) left' (echoed ++ echoed') (calls ++ calls') s s' where
  record := by rw [h'.record, h.record, append_assoc]
  written := by
    rw [writes_append, flatten_append, append_assoc, h'.written, ← append_assoc,
      h.written]
  short data hdata := by
    rw [writes_append] at hdata
    exact (mem_append.mp hdata).elim (h.short data) (h'.short data)
  succeed c hc := (mem_append.mp hc).elim (h.succeed c) (h'.succeed c)
  echo := by
    rw [h'.echo, h.echo, map_append, frames, frames, frames, flatMap_append,
      append_assoc]

theorem Passes.andThen (h : Passes given left echoed calls s s1)
    (h' : Passes left left' echoed' calls' s1 s') :
    Passes given left' (echoed ++ echoed') (calls ++ calls') s s' := by
  rw [← append_nil left] at h'
  have hall := h.trans [] h'
  rwa [append_nil] at hall

theorem frames_bytes (b : Bytes) : (frames (b.map fun c => [c])).length = 5 * b.length := by
  induction b with
  | nil => rfl
  | cons c cs ih =>
    rw [map_cons, frames, flatMap_cons, length_append, ← frames, ih, putString_length,
      length_singleton, length_cons]
    omega

/-- An echoed byte takes five bytes of the queue. -/
theorem Passes.len (h : Passes given left echoed calls s s') :
    s'.toChannel.writeBuf.len = s.toChannel.writeBuf.len + 5 * echoed.length := by
  rw [← Buffer.contents_length, h.echo, length_append, Buffer.contents_length, frames_bytes]

theorem Stopped.after (h : Passes given left echoed calls s s1) (h' : Stopped R e s1 s')
    (hR : R' → R) : Stopped R' e s s' where
  inBounds := h'.inBounds
  cause := by
    obtain ⟨calls', hrecord, hshort, hcause⟩ := h'.cause
    refine ⟨calls ++ calls', by rw [hrecord, h.record, append_assoc], fun data hdata => ?_, ?_⟩
    · rw [writes_append] at hdata
      exact (mem_append.mp hdata).elim (h.short data) (hshort data)
    · rcases hcause with ⟨c, hc, hfails⟩ | hroom
      · exact .inl ⟨c, mem_append_right calls hc, hfails⟩
      · exact .inr fun h' => hroom (hR h')

end Rules

/-! ## §3 One byte -/

section Byte

variable (os : Child ω) {R : Prop} {buf : Bytes} (s : Shell (ω × List Call))

variable {E : ShellError → Shell ω → Prop}

theorem wp_call {α : Type} {f : ω → α × ω} {s : Shell ω} {Q : α → Shell ω → Prop} :
    wp (call f) Q E s ↔ Q (f s.world).1 { s with world := (f s.world).2 } := by
  rw [call, wp_read, wp_write, wp_pure]

theorem writeBuf_passes (hbuf : buf.length ≤ sizeofBuf) :
    wp (writeBuf os.recording buf) (fun _ s' => ∃ calls, Passes buf [] [] calls s s')
      (fun e s' => Stopped R e s s') s := by
  rw [writeBuf, wp_bind, wp_call]
  simp only [Child.recording]
  generalize os.writeFile buf s.world.1 = r
  have hshort : ∀ data ∈ writes [.writeFile buf r.1], data.length ≤ sizeofBuf := by
    intro data hdata
    rw [mem_singleton.mp (show data ∈ [buf] from hdata)]
    exact hbuf
  have hstopped {e : ShellError} (he : e ≠ .outOfBounds)
      (hfails : (Call.writeFile buf r.1).succeeds = false) :
      Stopped R e s { s with world := (r.2, s.world.2 ++ [.writeFile buf r.1]) } :=
    ⟨he, _, rfl, hshort, .inl ⟨_, mem_singleton_self _, hfails⟩⟩
  cases hres : r.1 with
  | none =>
    simp only [wp_throw]
    rw [hres] at hstopped
    exact hstopped (by decide) (by simp [Call.succeeds])
  | some n =>
    rw [hres] at hstopped hshort
    rw [wp_ite]
    refine ⟨fun hne => ?_, fun heq => ?_⟩
    · rw [wp_throw]
      exact hstopped (by decide) (by simpa [Call.succeeds] using hne)
    · rw [wp_pure]
      refine ⟨_, rfl, by simp [writes, Call.data], hshort, fun c hc => ?_, (append_nil _).symm⟩
      rw [mem_singleton.mp hc]
      simpa [Call.succeeds] using heq

theorem flush_passes :
    wp (flush os.recording) (fun _ s' => ∃ calls, Passes [] [] [] calls s s')
      (fun e s' => Stopped R e s s') s := by
  rw [flush, wp_bind, wp_call, wp_ite]
  refine ⟨fun hfails => ?_, fun hres => ?_⟩
  · rw [wp_throw]
    refine ⟨by decide, _, rfl, fun _ h => absurd h not_mem_nil, .inl ⟨_, mem_singleton_self _, ?_⟩⟩
    exact Bool.not_eq_true' _ ▸ hfails
  · rw [wp_pure]
    refine ⟨_, rfl, rfl, fun _ h => absurd h not_mem_nil, fun c hc => ?_, (append_nil _).symm⟩
    have htrue : (os.recording.flushFileBuffers s.world).1 = true := by simpa using hres
    rw [mem_singleton.mp hc]
    exact htrue

theorem store_adds {c : UInt8} {Q : Bytes → Shell ω → Prop}
    {s : Shell ω} (hbuf : buf.length < sizeofBuf) : wp (store c buf) Q E s ↔ Q (buf ++ [c]) s := by
  rw [store, if_pos hbuf, wp_pure]

/-- There is room for two bytes then. -/
theorem makeRoom_passes (hbuf : buf.length < sizeofBuf) :
    wp (makeRoom os.recording buf)
      (fun buf' s' => buf'.length + 2 ≤ sizeofBuf ∧ ∃ calls, Passes buf buf' [] calls s s')
      (fun e s' => Stopped R e s s') s := by
  rw [makeRoom, wp_ite]
  refine ⟨fun _ => ?_, fun hroom => ?_⟩
  · refine wp_seq (writeBuf_passes os s (le_of_lt hbuf)) fun _ s' h => ?_
    rw [wp_pure]
    exact ⟨by decide, h⟩
  · rw [wp_pure]
    refine ⟨?_, [], .refl buf s⟩
    rw [sizeofBuf] at hroom ⊢
    omega

theorem addChar_passes (c : UInt8) (hbuf : buf.length + 2 ≤ sizeofBuf) :
    wp (addChar os.recording c buf)
      (fun buf' s' => buf'.length < sizeofBuf ∧
        ∃ calls, Passes (buf ++ crlf [c]) buf' [] calls s s')
      (fun e s' => Stopped R e s s') s := by
  have hone : buf.length < sizeofBuf := by omega
  rw [addChar, wp_ite]
  refine ⟨fun hne => ?_, fun heq => ?_⟩
  · rw [store_adds hone]
    have hsame : crlf [c] = [c] := by simp [crlf, hne]
    rw [hsame]
    refine ⟨?_, [], .refl _ s⟩
    rw [length_append, length_singleton]
    omega
  · have htwo : (buf ++ [13]).length < sizeofBuf := by
      rw [length_append, length_singleton]
      omega
    have hall : (buf ++ [13] ++ [10]).length ≤ sizeofBuf := by
      rw [length_append, length_singleton]
      exact htwo
    have hcrlf : buf ++ crlf [c] = buf ++ [13] ++ [10] := by simp [crlf, not_not.mp heq]
    rw [wp_bind, store_adds hone, wp_bind, store_adds htwo, wp_bind, hcrlf]
    refine wp_imp (writeBuf_passes os s hall) fun _ s1 h1 => ?_
    obtain ⟨calls, hpasses⟩ := h1
    rw [wp_bind]
    refine wp_mono (flush_passes os s1)
      (fun _ s2 h2 => ?_) fun _ _ h => .after hpasses h fun hR => hR
    obtain ⟨calls', hflush⟩ := h2
    rw [wp_pure]
    exact ⟨by decide, _, hpasses.andThen hflush⟩

theorem echo_passes (buf : Bytes) (c : UInt8) :
    wp (onToChannel (BusyThreadReadBuffer.put [c])) (fun _ s' => Passes buf buf [c] [] s s')
      (fun e s' => Stopped (s.toChannel.writeBuf.len + 4 ≤ 6 * bufferMaxChunk) e s s') s := by
  rw [onToChannel, wp_zoomWith, BusyThreadReadBuffer.put, wp_bind, wp_zoom]
  have hput : wp (Buffer.putString [c])
      (fun _ b => b.contents = s.toChannel.writeBuf.contents ++ putString [c])
      (fun _ _ => ¬s.toChannel.writeBuf.len + 4 ≤ 6 * bufferMaxChunk) s.toChannel.writeBuf := by
    by_cases hroom : s.toChannel.writeBuf.len + 4 ≤ 6 * bufferMaxChunk
    · exact wp_mono_total (Buffer.putString_fits hroom (show 1 ≤ _ by decide)) fun _ _ h => h
    · exact wp_mono (Buffer.putString_spec _ _) (fun _ _ h => h) fun _ _ _ => hroom
  refine wp_mono hput (fun _ b hb => ?_) fun _ b hroom => ?_
  · rw [wp_modify]
    refine ⟨(append_nil _).symm, rfl,
      fun _ h => absurd h not_mem_nil, fun _ h => absurd h not_mem_nil, ?_⟩
    rw [map_singleton, frames, flatMap_singleton]
    exact hb
  · exact ⟨fun h => ShellError.noConfusion h, [], (append_nil _).symm,
      fun _ h => absurd h not_mem_nil, .inr hroom⟩

end Byte

/-! ## §4 A message -/

theorem crlf_cons (c : UInt8) (cs : Bytes) : crlf (c :: cs) = crlf [c] ++ crlf cs := by
  simp [crlf]

/-- There is room for the echo of this number of bytes. -/
def RoomFor (n : Nat) (s : Shell ω) : Prop := s.toChannel.writeBuf.len + 5 * n ≤ 6 * bufferMaxChunk

theorem translate_passes (os : Child ω) (msg buf : Bytes) (hbuf : buf.length < sizeofBuf)
    (s : Shell (ω × List Call)) :
    wp (translate os.recording msg buf)
      (fun buf' s' => buf'.length < sizeofBuf ∧
        ∃ calls, Passes (buf ++ crlf msg) buf' msg calls s s')
      (fun e s' => Stopped (RoomFor msg.length s) e s s') s := by
  induction msg generalizing buf s with
  | nil =>
    rw [translate, wp_pure]
    refine ⟨hbuf, [], ?_⟩
    rw [show crlf [] = [] from rfl, append_nil]
    exact .refl buf s
  | cons c cs ih =>
    rw [translate]
    refine wp_seq (makeRoom_passes os s hbuf) fun buf1 s1 h1 => ?_
    obtain ⟨hbuf1, calls1, hpass1⟩ := h1
    rw [wp_bind]
    refine wp_mono (addChar_passes os s1 c hbuf1) (fun buf2 s2 h2 => ?_)
      fun _ _ h => .after hpass1 h fun hR => hR
    obtain ⟨hbuf2, calls2, hpass2⟩ := h2
    have hpass := hpass1.trans (crlf [c]) hpass2
    have hlen := hpass.len
    rw [wp_bind]
    refine wp_mono (echo_passes s2 buf2 c)
      (fun _ s3 h3 => ?_) fun _ _ h => .after hpass h fun hR => ?_
    · -- the byte is done with
      have hbyte := hpass.andThen h3
      have hlen3 := hbyte.len
      refine wp_mono (ih buf2 hbuf2 s3) (fun buf' s' h' => ⟨h'.1, ?_⟩)
        fun _ _ h => .after hbyte h fun hR => ?_
      · obtain ⟨calls, hrest⟩ := h'.2
        have hall := hbyte.trans (crlf cs) hrest
        rw [append_assoc, ← crlf_cons] at hall
        exact ⟨_, hall⟩
      · rw [RoomFor, length_cons] at hR
        rw [RoomFor, hlen3]
        simp only [length_append, length_nil, length_singleton]
        omega
    · rw [RoomFor, length_cons] at hR
      rw [hlen, length_append]
      simp only [length_nil]
      omega

/-- A message for the child: all of it is written and echoed, unless a call fails or there is no
room for the echo. In any case no more than 80 bytes are written at once, and `buf` is used within
its bounds. -/
theorem input_translated (os : Child ω) (msg : Bytes) (s : Shell (ω × List Call)) :
    wp (input os.recording msg)
      (fun _ s' => ∃ calls, Passes (crlf msg) [] msg calls s s')
      (fun e s' => Stopped (RoomFor msg.length s) e s s') s := by
  rw [input]
  refine wp_seq (translate_passes os msg [] (by decide) s) fun buf s1 h1 => ?_
  obtain ⟨hbuf, calls, hpass⟩ := h1
  refine wp_mono (writeBuf_passes os s1 (le_of_lt hbuf)) (fun _ s' h => ?_)
    fun _ _ h => .after hpass h fun hR => hR
  obtain ⟨calls', hlast⟩ := h
  have hall := hpass.andThen hlast
  rw [append_nil] at hall
  exact ⟨_, hall⟩

/-- A system that writes everything, but does not flush -/
def stuck : Child Unit where
  writeFile data := fun w => (some (UInt32.ofNat data.length), w)
  flushFileBuffers := fun w => (false, w)
  readFile := fun w => (true, w)

/-- All `WriteFile` calls have succeeded in full, but of a carriage return and an `a` only the
carriage return has been written, and nothing has been echoed. -/
theorem input_cut_short :
    let s : Shell (Unit × List Call) := { world := ((), []) }
    let s' := endState (input stuck.recording [13, 97]) s
    s'.world.2 = [.writeFile [13, 10] (some 2), .flushFileBuffers false] ∧
      (∀ c ∈ s'.world.2, c.data ≠ none → c.succeeds = true) ∧
      (writes s'.world.2).flatten ≠ crlf [13, 97] ∧ s'.toChannel.writeBuf.contents = [] := by
  decide +kernel

end Shiesh.Subsystems
