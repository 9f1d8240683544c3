import Shiesh.Buffer

/-!
# The Queues Between a Channel and Its Subsystem

`BusyThreadWriteBuffer` carries messages from the connection thread to a worker,
`BusyThreadReadBuffer` carries them back. Both are pairs of buffers that are swapped.

The connection thread runs its calls as a whole; `put` holds `swapM`. The worker's `get`
waits in the middle, so it is a machine of small steps: each test, each `swap`, the wait
and the taking of a message is one step, and the connection thread may come between any
two of them.
-/

namespace Shiesh.Channels

open Shiesh.Lib List UInt32

/-! ## §1 The queues -/

/-- `BusyThreadWriteBuffer<Buffer>` -/
structure BusyThreadWriteBuffer where
  readBuf : Buffer := .init
  writeBuf : Buffer := .init
  nWriteBufMsgs : Int := 0
  nReadBufMsgs : Int := 0
  -- flow control: consumed by the reader, counted downwards
  nWriteConsumed : Int32 := 0
  nReadConsumed : Int32 := 0
  dataArrived : Bool := false

namespace BusyThreadWriteBuffer

/-- Code on `writeBuf`. -/
def onWriteBuf {α : Type} (m : BufferM α) : EStateM Halt BusyThreadWriteBuffer α :=
  zoom writeBuf (fun b q => { q with writeBuf := b }) m

/-- `put`, on the queue and on `*consumed` -/
def put (data : Bytes) : EStateM Halt (BusyThreadWriteBuffer × UInt32) Unit := do
  modify fun (q, consumed) =>
    ({ q with nWriteConsumed := 0 }, consumed - q.nWriteConsumed.toUInt32)
  if data = [] then
    pure ()
  else do
    let wasEmpty := (← get).1.nWriteBufMsgs = 0
    zoom Prod.fst (fun q s => (q, s.2)) (onWriteBuf (Buffer.putString data))
    modify fun (q, consumed) =>
      ({ q with
          nWriteBufMsgs := q.nWriteBufMsgs + 1
          dataArrived := q.dataArrived || wasEmpty }, consumed)

/-- `put_eof`: an empty message -/
def putEof : EStateM Halt BusyThreadWriteBuffer Unit := do
  onWriteBuf (Buffer.putString [])
  modify fun q => { q with nWriteBufMsgs := q.nWriteBufMsgs + 1, dataArrived := true }

def swap (q : BusyThreadWriteBuffer) : BusyThreadWriteBuffer :=
  { q with
    readBuf := q.writeBuf
    writeBuf := q.readBuf
    nReadBufMsgs := q.nWriteBufMsgs
    nWriteBufMsgs := q.nReadBufMsgs
    nReadConsumed := q.nWriteConsumed
    nWriteConsumed := q.nReadConsumed }

/-- The bytes of messages in the two buffers. Each message has a length field of 4 bytes
in front of it, which does not count. -/
def waiting (q : BusyThreadWriteBuffer) : Nat :=
  q.readBuf.len + q.writeBuf.len - 4 * (q.nReadBufMsgs + q.nWriteBufMsgs).toNat

end BusyThreadWriteBuffer

/-- `BusyThreadReadBuffer<Buffer>` -/
structure BusyThreadReadBuffer where
  readBuf : Buffer := .init
  writeBuf : Buffer := .init
  nWriteBufMsgs : Int := 0
  nReadBufMsgs : Int := 0
  dataReady : Bool := false

namespace BusyThreadReadBuffer

def nMsgsInTheBuffer (q : BusyThreadReadBuffer) : Int := q.nWriteBufMsgs + q.nReadBufMsgs

/-- `put`, called by the worker -/
def put (data : Bytes) : EStateM Halt BusyThreadReadBuffer Unit := do
  zoom writeBuf (fun b q => { q with writeBuf := b }) (Buffer.putString data)
  modify fun q => { q with nWriteBufMsgs := q.nWriteBufMsgs + 1, dataReady := true }

def swap (q : BusyThreadReadBuffer) : BusyThreadReadBuffer :=
  { q with
    readBuf := q.writeBuf
    writeBuf := q.readBuf
    nReadBufMsgs := q.nWriteBufMsgs
    nWriteBufMsgs := q.nReadBufMsgs }

/-- Move one message from `readBuf` to `out`; the same in both branches of `get`. -/
def take (asString : Bool) : EStateM Halt (BusyThreadReadBuffer × Buffer) Unit := do
  modify fun (q, out) => ({ q with nReadBufMsgs := q.nReadBufMsgs - 1 }, out)
  let data ← zoom (fun s => s.1.readBuf) (fun b (q, out) => ({ q with readBuf := b }, out))
    Buffer.getString
  zoom Prod.snd (fun out s => (s.1, out))
    (if asString then Buffer.putString data else Buffer.append data)
  modify fun (q, out) =>
    ({ q with dataReady := q.dataReady && q.nReadBufMsgs != 0 }, out)

/-- `get`, called by the connection thread with the buffer `out` -/
def get (asString : Bool) : EStateM Halt (BusyThreadReadBuffer × Buffer) Bool := do
  let (q, _) ← MonadState.get
  if q.nReadBufMsgs ≠ 0 then do
    take asString
    pure true
  else if q.nWriteBufMsgs ≠ 0 then do
    modify fun (q, out) => (q.swap, out)
    take asString
    pure true
  else do
    modify fun (q, out) => ({ q with dataReady := false }, out)
    pure false

end BusyThreadReadBuffer

/-! ## §2 The worker -/

/-- Where the worker is in `BusyThreadWriteBuffer::get`. -/
inductive Pc where
  -- the thread has not been started
  | ready
  | outside
  | testRead
  | reset
  | testWrite
  -- "push consumed"
  | swapBeforeWait
  | wait
  | testMissed
  -- "miss each other"
  | swapMissed
  | swapLast
  | take
  -- the thread has ended
  | terminated
  deriving DecidableEq, Repr

structure Worker where
  pc : Pc := .outside
  -- what `get` has returned
  received : List Bytes := []

/-- Take a message from `readBuf`. A `fatal` there ends the worker's thread. -/
def takeMessage (q : BusyThreadWriteBuffer) (w : Worker) : BusyThreadWriteBuffer × Worker :=
  let n := q.nReadBufMsgs - 1
  match Buffer.getString q.readBuf with
  | .ok data b =>
    ({ q with
        readBuf := b
        nReadBufMsgs := n
        nReadConsumed := (q.nReadConsumed.toUInt32 - UInt32.ofNat data.length).toInt32 },
      { pc := .outside, received := w.received ++ [data] })
  | .error _ b => ({ q with readBuf := b, nReadBufMsgs := n }, { w with pc := .terminated })

/-- The next step of `get`. -/
def getStep (q : BusyThreadWriteBuffer) (w : Worker) : BusyThreadWriteBuffer × Worker :=
  let goto pc := { w with pc := pc }
  match w.pc with
  | .testRead => (q, goto (if q.nReadBufMsgs ≠ 0 then .take else .reset))
  | .reset => ({ q with dataArrived := false }, goto .testWrite)
  | .testWrite => (q, goto (if q.nWriteBufMsgs = 0 then .swapBeforeWait else .swapLast))
  | .swapBeforeWait => (q.swap, goto .wait)
  -- an event with automatic reset
  | .wait => if q.dataArrived then ({ q with dataArrived := false }, goto .testMissed) else (q, w)
  | .testMissed => (q, goto (if q.nWriteBufMsgs = 0 then .swapMissed else .swapLast))
  | .swapMissed => (q.swap, goto .swapLast)
  | .swapLast => (q.swap, goto .take)
  | .take => takeMessage q w
  | .ready | .outside | .terminated => (q, w)

/-! ## §3 Messages in the buffers -/

/-- Messages with their length fields. -/
def frames (msgs : List Bytes) : Bytes := msgs.flatMap putString

def payload (msgs : List Bytes) : Nat := (msgs.map List.length).sum

theorem frames_length (msgs : List Bytes) :
    (frames msgs).length = payload msgs + 4 * msgs.length := by
  induction msgs with
  | nil => rfl
  | cons m msgs ih =>
    simp only [frames, payload, flatMap_cons, length_append, putString,
      putU32_length, map_cons, sum_cons, length_cons] at ih ⊢
    omega

/-- A buffer and its counter. `junk` is the rest of a message that could not be taken. -/
structure Holds (b : Buffer) (n : Int) (junk : Bytes) (msgs : List Bytes) : Prop where
  contents : b.contents = junk ++ frames msgs
  count : n = msgs.length
  short : ∀ m ∈ msgs, m.length < UInt32.size

variable {b : Buffer} {n : Int} {data junk : Bytes} {msgs : List Bytes} {w' : Worker}

theorem Holds.len
    (h : Holds b n junk msgs) : b.len = junk.length + payload msgs + 4 * msgs.length := by
  rw [← b.contents_length, h.contents, length_append, frames_length, add_assoc]

theorem waiting_of_holds {q : BusyThreadWriteBuffer} {junk' : Bytes}
    {msgs' : List Bytes} (hr : Holds q.readBuf q.nReadBufMsgs junk msgs)
    (hw : Holds q.writeBuf q.nWriteBufMsgs junk' msgs') :
    q.waiting = junk.length + payload msgs + (junk'.length + payload msgs') := by
  rw [BusyThreadWriteBuffer.waiting, hr.len, hw.len, hr.count, hw.count]
  omega

theorem Holds.empty : Holds .init 0 [] [] :=
  ⟨rfl, rfl, fun _ hm => absurd hm not_mem_nil⟩

theorem Holds.snoc {b' : Buffer} (h : Holds b n junk msgs) (hdata : data.length < size)
    (hb : b'.contents = b.contents ++ putString data) : Holds b' (n + 1) junk (msgs ++ [data]) := by
  refine ⟨?_, ?_, ?_⟩
  · rw [hb, h.contents]
    simp [frames]
  · rw [h.count]
    simp
  · intro m hm
    rcases mem_append.mp hm with hm | hm
    · exact h.short m hm
    · rw [mem_singleton.mp hm]
      exact hdata

/-- The first message is taken; one that is too long loses its length field and stays. -/
theorem Holds.getString_spec {m : Bytes} {rest : List Bytes} (h : Holds b n [] (m :: rest)) :
    wp Buffer.getString (fun data b' => data = m ∧ Holds b' (n - 1) [] rest)
      (fun _ b' => Holds b' (n - 1) m rest) b := by
  have hshort : m.length < size := h.short m (mem_cons_self ..)
  have hrest : ∀ m' ∈ rest, m'.length < size :=
    fun m' hm' => h.short m' (mem_cons_of_mem _ hm')
  have hcount : n - 1 = rest.length := by
    rw [h.count, length_cons]
    omega
  refine wp_mono (Buffer.getString_spec hshort b h.contents) ?_ fun _ b' hb => ?_
  · intro data b' hb
    exact ⟨hb.1, hb.2, hcount, hrest⟩
  · exact ⟨hb.1, hcount, hrest⟩

/-- What a place in `get` tells about the counters. -/
def PcOk (q : BusyThreadWriteBuffer) : Pc → Prop
  | .testWrite | .swapBeforeWait | .wait =>
    q.dataArrived = true → 0 < q.nReadBufMsgs + q.nWriteBufMsgs
  | .testMissed => 0 < q.nReadBufMsgs + q.nWriteBufMsgs
  | .swapMissed => 0 < q.nReadBufMsgs
  | .swapLast => 0 < q.nWriteBufMsgs
  | .take => 0 < q.nReadBufMsgs
  | _ => True

/-- The queue holds whole messages, unless the worker has failed on one, and the worker
takes one only where there is one. -/
structure QueueOk (subsystem : Option Worker) (q : BusyThreadWriteBuffer) : Prop where
  write : ∃ msgs, Holds q.writeBuf q.nWriteBufMsgs [] msgs
  read : ∃ junk msgs, Holds q.readBuf q.nReadBufMsgs junk msgs ∧
    ∀ w, subsystem = some w → w.pc ≠ .terminated → junk = []
  pc : ∀ w, subsystem = some w → PcOk q w.pc

/-- A new queue, and a thread that has not called `get` -/
theorem QueueOk.init {subsystem : Option Worker}
    (houtside : ∀ w, subsystem = some w → w.pc = .outside) : QueueOk subsystem {} := by
  refine ⟨⟨[], .empty⟩, ⟨[], [], .empty, fun _ _ _ => rfl⟩, fun w hw => ?_⟩
  rw [houtside w hw]
  trivial

/-- What a step does to the bytes waiting and to the counters of consumed bytes. -/
inductive Effect (q q' : BusyThreadWriteBuffer) : Prop
  | same (h : q'.waiting = q.waiting) (hr : q'.nReadConsumed = q.nReadConsumed)
      (hw : q'.nWriteConsumed = q.nWriteConsumed)
  | swap (h : q'.waiting = q.waiting) (hr : q'.nReadConsumed = q.nWriteConsumed)
      (hw : q'.nWriteConsumed = q.nReadConsumed)
  | take (n : Nat) (h : q.waiting = q'.waiting + n)
      (hr : q'.nReadConsumed.toUInt32 = q.nReadConsumed.toUInt32 - UInt32.ofNat n)
      (hw : q'.nWriteConsumed = q.nWriteConsumed)

/-! ## §4 The operations -/

variable {q : BusyThreadWriteBuffer} {w : Worker} {subsystem : Option Worker}

theorem QueueOk.counts (h : QueueOk subsystem q) : 0 ≤ q.nReadBufMsgs ∧ 0 ≤ q.nWriteBufMsgs := by
  obtain ⟨msgs, hw⟩ := h.write
  obtain ⟨junk, msgs', hr, -⟩ := h.read
  rw [hr.count, hw.count]
  exact ⟨Int.natCast_nonneg _, Int.natCast_nonneg _⟩

theorem swap_waiting (q : BusyThreadWriteBuffer) : q.swap.waiting = q.waiting := by
  simp only [BusyThreadWriteBuffer.waiting, BusyThreadWriteBuffer.swap]
  rw [add_comm, Int.add_comm]

/-- A worker that is running swaps two buffers of whole messages. -/
theorem QueueOk.swap (h : QueueOk (some w) q) (hrun : w.pc ≠ .terminated)
    (hpc : PcOk q.swap w'.pc) : QueueOk (some w') q.swap := by
  obtain ⟨msgs, hw⟩ := h.write
  obtain ⟨junk, msgs', hr, hjunk⟩ := h.read
  cases hjunk w rfl hrun
  refine ⟨⟨msgs', hr⟩, ⟨[], msgs, hw, fun _ _ _ => rfl⟩, ?_⟩
  intro w'' hw''
  cases hw''
  exact hpc

theorem QueueOk.goto (h : QueueOk (some w) q) (hrun : w.pc ≠ .terminated)
    (arrived : Bool) (hpc : PcOk { q with dataArrived := arrived } w'.pc) :
    QueueOk (some w') { q with dataArrived := arrived } := by
  obtain ⟨junk, msgs', hr, hjunk⟩ := h.read
  refine ⟨h.write, ⟨junk, msgs', hr, fun _ _ _ => hjunk w rfl hrun⟩, ?_⟩
  intro w'' hw''
  cases hw''
  exact hpc

/-- The message is taken and counted; one that is too long stays and ends the worker. -/
theorem takeMessage_ok (h : QueueOk (some w) q) (hpc : w.pc = .take) :
    QueueOk (some (takeMessage q w).2) (takeMessage q w).1 ∧
      Effect q (takeMessage q w).1 := by
  obtain ⟨msgs, hw⟩ := h.write
  obtain ⟨junk, msgs', hr, hjunk⟩ := h.read
  have hpos : 0 < q.nReadBufMsgs := by
    have := h.pc w rfl
    rwa [hpc] at this
  cases hjunk w rfl (by rw [hpc]; decide)
  cases msgs' with
  | nil =>
    rw [hr.count] at hpos
    exact absurd hpos (by decide)
  | cons m rest =>
    have hspec := hr.getString_spec
    rw [takeMessage]
    cases hget : Buffer.getString q.readBuf with
    | ok data b =>
      rw [wp_of_ok hget] at hspec
      obtain ⟨rfl, hread⟩ := hspec
      have hafter := waiting_of_holds
        (q := { q with readBuf := b, nReadBufMsgs := q.nReadBufMsgs - 1 }) hread hw
      refine ⟨⟨⟨msgs, hw⟩, ⟨[], rest, hread, fun _ _ _ => rfl⟩, ?_⟩, ?_⟩
      · intro w' hw'
        cases hw'
        trivial
      · refine .take data.length ?_ rfl rfl
        refine (waiting_of_holds hr hw).trans (Eq.trans ?_ (congrArg (· + _) hafter.symm))
        simp only [payload, map_cons, sum_cons]
        omega
    | error e b =>
      rw [wp_of_error hget] at hspec
      have hafter := waiting_of_holds
        (q := { q with readBuf := b, nReadBufMsgs := q.nReadBufMsgs - 1 }) hspec hw
      refine ⟨⟨⟨msgs, hw⟩, ⟨m, rest, hspec, ?_⟩, ?_⟩, ?_⟩
      · intro w' hw' hrun
        cases hw'
        exact absurd rfl hrun
      · intro w' hw'
        cases hw'
        trivial
      · refine .same ?_ rfl rfl
        refine hafter.trans (Eq.trans ?_ (waiting_of_holds hr hw).symm)
        simp only [payload, map_cons, sum_cons, length_nil]
        omega

theorem getStep_ok (h : QueueOk (some w) q) :
    QueueOk (some (getStep q w).2) (getStep q w).1 ∧ Effect q (getStep q w).1 := by
  have hpc := h.pc w rfl
  have hcounts := h.counts
  have hmoved : w.pc ≠ .terminated → ∀ pc, PcOk q pc →
      QueueOk (some { w with pc := pc }) q ∧ Effect q q :=
    fun hrun pc hok => ⟨h.goto hrun q.dataArrived hok, .same rfl rfl rfl⟩
  have hswapped : w.pc ≠ .terminated → ∀ pc, PcOk q.swap pc →
      QueueOk (some { w with pc := pc }) q.swap ∧ Effect q q.swap :=
    fun hrun pc hok => ⟨h.swap hrun hok, .swap (swap_waiting q) rfl rfl⟩
  rw [getStep]
  cases hat : w.pc with
  | ready | outside | terminated => exact ⟨h, .same rfl rfl rfl⟩
  | testRead =>
    refine hmoved (by rw [hat]; decide) _ ?_
    split
    case isTrue hne => exact Int.lt_iff_le_and_ne.mpr ⟨hcounts.1, hne.symm⟩
    case isFalse => trivial
  | reset =>
    refine ⟨h.goto (by rw [hat]; decide) false fun hset => ?_, .same rfl rfl rfl⟩
    cases hset
  | testWrite =>
    rw [hat] at hpc
    refine hmoved (by rw [hat]; decide) _ ?_
    split
    case isTrue => exact hpc
    case isFalse hne => exact Int.lt_iff_le_and_ne.mpr ⟨hcounts.2, .symm hne⟩
  | swapBeforeWait =>
    rw [hat] at hpc
    refine hswapped (by rw [hat]; decide) _ fun hset => ?_
    rw [Int.add_comm]
    exact hpc hset
  | wait =>
    rw [hat] at hpc
    simp only
    split
    case isTrue hset =>
      exact ⟨h.goto (by rw [hat]; decide) false (hpc hset), .same rfl rfl rfl⟩
    case isFalse => exact ⟨h, .same rfl rfl rfl⟩
  | testMissed =>
    rw [hat] at hpc
    refine hmoved (by rw [hat]; decide) _ ?_
    split
    case isTrue hzero =>
      have hpos : 0 < q.nReadBufMsgs + q.nWriteBufMsgs := hpc
      rw [hzero, Int.add_zero] at hpos
      exact hpos
    case isFalse hne => exact Int.lt_iff_le_and_ne.mpr ⟨hcounts.2, .symm hne⟩
  | swapMissed =>
    rw [hat] at hpc
    exact hswapped (by rw [hat]; decide) .swapLast hpc
  | swapLast =>
    rw [hat] at hpc
    exact hswapped (by rw [hat]; decide) .take hpc
  | take => exact takeMessage_ok h hat

/-- The connection thread adds a message, which keeps what the worker knows. -/
theorem QueueOk.added (h : QueueOk subsystem q) (hdata : data.length < size)
    (hb : b.contents = q.writeBuf.contents ++ putString data) (arrived : Bool)
    (nWriteConsumed : Int32) :
    let q' : BusyThreadWriteBuffer :=
      { q with
        writeBuf := b
        nWriteBufMsgs := q.nWriteBufMsgs + 1
        dataArrived := arrived
        nWriteConsumed := nWriteConsumed }
    QueueOk subsystem q' ∧ q'.waiting = q.waiting + data.length := by
  intro q'
  have hcounts := h.counts
  obtain ⟨⟨msgs, hw⟩, ⟨junk, msgs', hr, hjunk⟩, hpc⟩ := h
  have hwrite : Holds b (q.nWriteBufMsgs + 1) [] (msgs ++ [data]) := hw.snoc hdata hb
  refine ⟨⟨⟨_, hwrite⟩, ⟨junk, msgs', hr, hjunk⟩, ?_⟩, ?_⟩
  · intro w hsub
    have hold := hpc w hsub
    revert hold
    cases w.pc <;> simp only [PcOk] <;> intro hold <;> (try intro _) <;>
      simp only [q'] <;> omega
  · refine (waiting_of_holds (q := q') hr hwrite).trans ?_
    rw [waiting_of_holds hr hw]
    simp only [payload, map_append, sum_append, map_cons, map_nil,
      sum_cons, sum_nil]
    omega

/-- A string that a buffer has accepted has a length that fits its length field. -/
theorem putString_accepted (data : Bytes) (b : Buffer) :
    wp (Buffer.putString data)
      (fun _ b' => data.length < size ∧ b'.contents = b.contents ++ putString data)
      any b := by
  by_cases hdata : data.length < size
  · exact wp_weaken (Buffer.putString_spec data b) fun _ _ h => ⟨hdata, h⟩
  · rw [Buffer.putString, Buffer.putInt]
    refine wp_seq_any (Buffer.append_spec _ b) fun _ b1 _ => ?_
    have hlong : data.length > bufferMaxChunk := by
      simp only [size] at hdata
      simp only [bufferMaxChunk]
      omega
    rw [Buffer.append, wp_read, wp_bind, Buffer.appendSpace, if_pos hlong]
    exact wp_liftE (fun _ hok => by cases hok) fun _ _ => trivial

/-- What `put` does: it collects the count of consumed bytes, and adds the message if there
is one. -/
theorem put_result (q : BusyThreadWriteBuffer) (data : Bytes) (consumed : UInt32) :
    wp (BusyThreadWriteBuffer.put data)
      (fun _ s => s.2 = consumed - q.nWriteConsumed.toUInt32 ∧
        (data = [] ∧ s.1 = { q with nWriteConsumed := 0 } ∨
          data ≠ [] ∧ data.length < size ∧
            ∃ b, b.contents = q.writeBuf.contents ++ putString data ∧
              s.1 = { q with
                writeBuf := b
                nWriteBufMsgs := q.nWriteBufMsgs + 1
                dataArrived := q.dataArrived || decide (q.nWriteBufMsgs = 0)
                nWriteConsumed := 0 }))
      any (q, consumed) := by
  simp only [BusyThreadWriteBuffer.put, BusyThreadWriteBuffer.onWriteBuf, wp_bind, wp_modify]
  rw [wp_ite, wp_pure]
  constructor
  · intro hnil
    exact ⟨rfl, .inl ⟨hnil, rfl⟩⟩
  · intro hdata
    rw [wp_read, wp_bind, wp_zoom, wp_zoom]
    refine wp_weaken (putString_accepted data q.writeBuf) ?_
    intro _ b hb
    rw [wp_modify]
    exact ⟨rfl, .inr ⟨hdata, hb.1, b, hb.2, rfl⟩⟩

/-- An empty message is put exactly if there is room for its length field. -/
theorem putEof_result (q : BusyThreadWriteBuffer) :
    wp BusyThreadWriteBuffer.putEof
      (fun _ q' => q.writeBuf.hasRoom 4 = true ∧
        ∃ b, b.contents = q.writeBuf.contents ++ putString [] ∧
          q' = { q with
            writeBuf := b
            nWriteBufMsgs := q.nWriteBufMsgs + 1
            dataArrived := true })
      (fun _ _ => q.writeBuf.hasRoom 4 = false) q := by
  rw [BusyThreadWriteBuffer.putEof, BusyThreadWriteBuffer.onWriteBuf, wp_bind, wp_zoom,
    Buffer.putString, wp_bind, Buffer.putInt]
  have hlength : wp (Buffer.append (putU32 (ofNat ([] : Bytes).length))) _ _ q.writeBuf :=
    Buffer.append_room (by decide) q.writeBuf
  rw [putU32_length] at hlength
  refine wp_imp hlength fun _ b hb => ?_
  refine wp_mono (Buffer.append_room (Nat.zero_le _) b) (fun _ b' hb' => ?_) fun _ _ h => ?_
  · rw [wp_modify]
    refine ⟨hb.2, b', ?_, rfl⟩
    rw [hb'.1, hb.1, append_assoc]
    rfl
  · cases h.symm.trans b.hasRoom_zero

theorem put_spec (h : QueueOk subsystem q) (data : Bytes) (consumed : UInt32) :
    wp (BusyThreadWriteBuffer.put data)
      (fun _ s => QueueOk subsystem s.1 ∧ s.1.waiting = q.waiting + data.length ∧
        s.1.nReadConsumed = q.nReadConsumed ∧ s.1.nWriteConsumed = 0 ∧
        s.2 = consumed - q.nWriteConsumed.toUInt32)
      any (q, consumed) := by
  refine wp_weaken (put_result q data consumed) fun _ s hs => ?_
  obtain ⟨hconsumed, ⟨hnil, hq⟩ | ⟨-, hdata, b, hb, hq⟩⟩ := hs
  · rw [hq, hnil]
    exact ⟨{ h with }, rfl, rfl, rfl, hconsumed⟩
  · have hadded := h.added hdata hb (q.dataArrived || decide (q.nWriteBufMsgs = 0)) 0
    rw [hq]
    exact ⟨hadded.1, hadded.2, rfl, rfl, hconsumed⟩

end Shiesh.Channels
