import Shiesh.Lib.Halves
import Shiesh.Channels.Queue

/-!
# The Queues Deliver in Order

Both queues between a channel and its subsystem are queues in two halves. The thread that
takes also exchanges the halves, in small steps, and the other thread may put a message
between any two of them.

`BusyThreadReadBuffer::get` exchanges the halves only when its own is empty, and so always
delivers in order. `BusyThreadWriteBuffer::get` exchanges them once before it waits, only to
hand over the count of consumed bytes. A message may already have been put by then, and
another one may be put before the last exchange; of two such messages the second can be
delivered first.
-/

namespace Shiesh.Channels

open Shiesh.Lib List Halves

/-! ## §1 Halves -/

/-- Two buffers with their counters hold the messages of two halves. -/
structure HoldsHalves (readBuf writeBuf : Buffer) (nRead nWrite : Int) (h : Halves Bytes) :
    Prop where
  read : Holds readBuf nRead [] h.read
  write : Holds writeBuf nWrite [] h.write

namespace HoldsHalves

variable {readBuf writeBuf b : Buffer} {nRead nWrite : Int} {h : Halves Bytes} {data : Bytes}

theorem empty : HoldsHalves .init .init 0 0 ⟨[], []⟩ := ⟨.empty, .empty⟩

variable (hh : HoldsHalves readBuf writeBuf nRead nWrite h)
include hh

theorem swap :
    HoldsHalves writeBuf readBuf nWrite nRead h.swap :=
  ⟨hh.write, hh.read⟩

theorem put
    (hdata : data.length < UInt32.size) (hb : b.contents = writeBuf.contents ++ putString data) :
    HoldsHalves readBuf b nRead (nWrite + 1) (h.put data) :=
  ⟨hh.read, hh.write.snoc hdata hb⟩

theorem read_nil (hzero : nRead = 0) :
    h.read = [] := by
  have hcount := hh.read.count
  rw [hzero] at hcount
  exact length_eq_zero_iff.mp (by omega)

theorem write_nil (hzero : nWrite = 0) :
    h.write = [] :=
  hh.swap.read_nil hzero

theorem read_cons (hpos : 0 < nRead) :
    ∃ m rest, h.read = m :: rest := by
  cases hread : h.read with
  | nil =>
    have hcount := hh.read.count
    rw [hread] at hcount
    exact absurd hpos (by rw [hcount]; decide)
  | cons m rest => exact ⟨m, rest, rfl⟩

end HoldsHalves

/-! ## §2 From the connection thread to the subsystem -/

/-- The queue, its consumer, and the messages put so far. -/
structure WriteRun where
  queue : BusyThreadWriteBuffer := {}
  consumed : UInt32 := 0
  worker : Worker := {}
  put : List Bytes := []

inductive WriteEvent where
  | put (data : Bytes)
  | putEof
  | callGet
  | getStep
  -- another event ends the wait
  | otherEvent

namespace WriteRun

def step : WriteEvent → EStateM Halt WriteRun Unit
  | .put data => do
    zoom (fun s => (s.queue, s.consumed))
      (fun (q, consumed) s => { s with queue := q, consumed := consumed })
      (BusyThreadWriteBuffer.put data)
    -- without data only the consumed bytes are collected
    modify fun s => { s with put := if data = [] then s.put else s.put ++ [data] }
  | .putEof => do
    zoom queue (fun q s => { s with queue := q }) BusyThreadWriteBuffer.putEof
    modify fun s => { s with put := s.put ++ [[]] }
  | .callGet => modify fun s =>
      if s.worker.pc = .outside then { s with worker := { s.worker with pc := .testRead } } else s
  | .getStep => modify fun s =>
      let r := Channels.getStep s.queue s.worker
      { s with queue := r.1, worker := r.2 }
  | .otherEvent => modify fun s =>
      if s.worker.pc = .wait then { s with worker := { s.worker with pc := .outside } } else s

/-- The consumer does not find messages in both halves when it has waited, and no message
is put right before its last exchange while there are messages in the half it reads. -/
def Orderly : WriteEvent → WriteRun → Prop
  | .getStep, s =>
    s.worker.pc = .testMissed → s.queue.nWriteBufMsgs = 0 ∨ s.queue.nReadBufMsgs = 0
  | .put _, s | .putEof, s => s.worker.pc = .swapLast → s.queue.nReadBufMsgs = 0
  | _, _ => True

instance (event : WriteEvent) (s : WriteRun) : Decidable (Orderly event s) :=
  match event with
  | .getStep => inferInstanceAs (Decidable (_ → _))
  | .put _ => inferInstanceAs (Decidable (_ → _))
  | .putEof => inferInstanceAs (Decidable (_ → _))
  | .callGet => isTrue trivial
  | .otherEvent => isTrue trivial

/-- The halves are crossed before the last exchange only. -/
def crossed (pc : Pc) : Bool := pc = .swapLast

/-- Places at which the consumer's half is known to be empty. -/
def ReadEmpty : Pc → Prop
  | .reset | .testWrite | .swapBeforeWait => True
  | _ => False

/-- All messages, from the oldest to the newest: those taken, and those in the halves. -/
structure InOrder (s : WriteRun) (h : Halves Bytes) : Prop where
  halves : HoldsHalves s.queue.readBuf s.queue.writeBuf s.queue.nReadBufMsgs
    s.queue.nWriteBufMsgs h
  order : s.worker.received ++ h.inOrder (crossed s.worker.pc) = s.put
  empty : ReadEmpty s.worker.pc → h.read = []

structure Inv (s : WriteRun) : Prop where
  queue : QueueOk (some s.worker) s.queue
  taken : s.worker.received <+: s.put
  order : s.worker.pc ≠ .terminated → ∃ h, InOrder s h

variable {s : WriteRun} {h : Halves Bytes}

theorem InOrder.added (hs : InOrder s h)
    (horderly : s.worker.pc = .swapLast → s.queue.nReadBufMsgs = 0)
    {data : Bytes} (hdata : data.length < UInt32.size) {b : Buffer}
    (hb : b.contents = s.queue.writeBuf.contents ++ putString data) (arrived : Bool)
    (nWriteConsumed : Int32) (consumed : UInt32) :
    InOrder
      { s with
        queue := { s.queue with
          writeBuf := b
          nWriteBufMsgs := s.queue.nWriteBufMsgs + 1
          dataArrived := arrived
          nWriteConsumed := nWriteConsumed }
        consumed := consumed
        put := s.put ++ [data] } (h.put data) where
  halves := hs.halves.put hdata hb
  order := by
    have hread : crossed s.worker.pc = true → h.read = [] :=
      fun hcrossed => hs.halves.read_nil (horderly (of_decide_eq_true hcrossed))
    rw [inOrder_put _ _ _ hread, ← append_assoc, hs.order]
  empty := hs.empty

/-- **The consumer's own steps.** Taking apart, each moves the halves so that the order stays. -/
theorem InOrder.moved (hs : InOrder s h) {queue : BusyThreadWriteBuffer} {pc : Pc}
    {h' : Halves Bytes}
    (hhalves : HoldsHalves queue.readBuf queue.writeBuf queue.nReadBufMsgs queue.nWriteBufMsgs h')
    (horder : h'.inOrder (crossed pc) = h.inOrder (crossed s.worker.pc))
    (hempty : ReadEmpty pc → h'.read = []) :
    InOrder { s with queue := queue, worker := { s.worker with pc := pc } } h' where
  halves := hhalves
  order := by
    rw [horder]
    exact hs.order
  empty := hempty

/-- **Taking.** The consumer gets the oldest message, or fails on it. -/
theorem InOrder.take (hs : InOrder s h) (hpc : s.worker.pc = .take)
    (hpos : 0 < s.queue.nReadBufMsgs) :
    let r := takeMessage s.queue s.worker
    r.2.received <+: s.put ∧
      (r.2.pc ≠ .terminated → ∃ h', InOrder { s with queue := r.1, worker := r.2 } h') := by
  intro r
  obtain ⟨m, rest, hread⟩ := hs.halves.read_cons hpos
  have hput : s.worker.received ++ m :: (Halves.mk rest h.write).inOrder false = s.put := by
    have horder := hs.order
    rw [hpc] at horder
    rw [← Halves.inOrder_cons hread]
    exact horder
  have hhead := hs.halves.read
  rw [hread] at hhead
  have hspec := hhead.getString_spec
  cases hget : Buffer.getString s.queue.readBuf with
  | ok data b =>
    rw [wp_of_ok hget] at hspec
    obtain ⟨rfl, hb⟩ := hspec
    simp only [r, takeMessage, hget]
    have hafter : (s.worker.received ++ [data]) ++ (Halves.mk rest h.write).inOrder false =
        s.put := by
      rw [append_assoc]
      exact hput
    refine ⟨⟨_, hafter⟩, fun _ => ⟨⟨rest, h.write⟩, ⟨hb, hs.halves.write⟩, hafter, ?_⟩⟩
    intro hfalse
    exact hfalse.elim
  | error e b =>
    simp only [r, takeMessage, hget]
    exact ⟨⟨_, hput⟩, fun hrun => absurd rfl hrun⟩

theorem InOrder.getStep (hs : InOrder s h) (hqueue : QueueOk (some s.worker) s.queue)
    (horderly : Orderly .getStep s) :
    let r := Channels.getStep s.queue s.worker
    r.2.received <+: s.put ∧
      (r.2.pc ≠ .terminated → ∃ h', InOrder { s with queue := r.1, worker := r.2 } h') := by
  have htaken : s.worker.received <+: s.put := ⟨_, hs.order⟩
  have hpcOk := hqueue.pc s.worker rfl
  cases hpc : s.worker.pc with
  | ready | outside | terminated =>
    simp only [Channels.getStep, hpc]
    exact ⟨htaken, fun _ => ⟨h, hs⟩⟩
  | testRead =>
    simp only [Channels.getStep, hpc]
    refine ⟨htaken, fun _ => ⟨h, hs.moved hs.halves ?_ ?_⟩⟩
    · split <;> rw [hpc] <;> rfl
    · split
      case isTrue => exact fun hfalse => hfalse.elim
      case isFalse hzero => exact fun _ => hs.halves.read_nil (by omega)
  | reset =>
    simp only [Channels.getStep, hpc]
    refine ⟨htaken, fun _ => ⟨h, hs.moved hs.halves ?_ ?_⟩⟩
    · rw [hpc]
      rfl
    · exact fun _ => hs.empty (by rw [hpc]; trivial)
  | testWrite =>
    have hempty : h.read = [] := hs.empty (by rw [hpc]; trivial)
    simp only [Channels.getStep, hpc]
    refine ⟨htaken, fun _ => ⟨h, hs.moved hs.halves ?_ fun _ => hempty⟩⟩
    rw [inOrder_of_read_nil hempty, inOrder_of_read_nil hempty]
  | swapBeforeWait =>
    have hempty : h.read = [] := hs.empty (by rw [hpc]; trivial)
    simp only [Channels.getStep, hpc]
    refine ⟨htaken, fun _ => ⟨h.swap, hs.moved hs.halves.swap ?_ fun hfalse => hfalse.elim⟩⟩
    rw [inOrder_swap, inOrder_of_read_nil hempty,
      inOrder_of_read_nil hempty]
  | wait =>
    simp only [Channels.getStep, hpc]
    split
    case isTrue =>
      refine ⟨htaken, fun _ => ⟨h, hs.moved hs.halves ?_ fun hfalse => hfalse.elim⟩⟩
      rw [hpc]
      rfl
    case isFalse => exact ⟨htaken, fun _ => ⟨h, hs⟩⟩
  | testMissed =>
    simp only [Channels.getStep, hpc]
    refine ⟨htaken, fun _ => ⟨h, hs.moved hs.halves ?_ ?_⟩⟩
    · split
      case isTrue =>
        rw [hpc]
        rfl
      case isFalse hne =>
        -- the run is orderly: the other half is empty
        have hempty := hs.halves.read_nil ((horderly hpc).resolve_left hne)
        rw [inOrder_of_read_nil hempty, inOrder_of_read_nil hempty]
    · split <;> exact fun hfalse => hfalse.elim
  | swapMissed | swapLast =>
    simp only [Channels.getStep, hpc]
    refine ⟨htaken, fun _ => ⟨h.swap, hs.moved hs.halves.swap ?_ fun hfalse => hfalse.elim⟩⟩
    rw [inOrder_swap, hpc]
    rfl
  | take =>
    rw [hpc] at hpcOk
    simp only [Channels.getStep, hpc]
    exact hs.take hpc hpcOk

theorem Inv.added (hs : Inv s) (horderly : s.worker.pc = .swapLast → s.queue.nReadBufMsgs = 0)
    {data : Bytes} (hdata : data.length < UInt32.size) {b : Buffer}
    (hb : b.contents = s.queue.writeBuf.contents ++ putString data) (arrived : Bool)
    (nWriteConsumed : Int32) (consumed : UInt32) :
    Inv
      { s with
        queue := { s.queue with
          writeBuf := b
          nWriteBufMsgs := s.queue.nWriteBufMsgs + 1
          dataArrived := arrived
          nWriteConsumed := nWriteConsumed }
        consumed := consumed
        put := s.put ++ [data] } where
  queue := (hs.queue.added hdata hb arrived nWriteConsumed).1
  taken := hs.taken.trans (prefix_append ..)
  order := by
    intro hrun
    obtain ⟨h, hh⟩ := hs.order hrun
    exact ⟨_, hh.added horderly hdata hb arrived nWriteConsumed consumed⟩

/-- The consumer goes to a place at which nothing is known about its half. -/
theorem Inv.goto (hs : Inv s) (hrun : s.worker.pc ≠ .terminated) {pc : Pc}
    (hpc : PcOk s.queue pc) (hcrossed : crossed pc = crossed s.worker.pc)
    (hempty : ¬ ReadEmpty pc) : Inv { s with worker := { s.worker with pc := pc } } where
  queue := hs.queue.goto hrun s.queue.dataArrived hpc
  taken := hs.taken
  order := by
    intro _
    obtain ⟨h, hh⟩ := hs.order hrun
    exact ⟨h, hh.moved hh.halves (by rw [hcrossed]) fun he => absurd he hempty⟩

theorem step_inv (event : WriteEvent) (s : WriteRun) (hs : Inv s) (horderly : Orderly event s) :
    wp (step event) (fun _ => Inv) any s := by
  cases event with
  | put data =>
    rw [step, wp_bind, wp_zoom]
    refine wp_weaken (put_result s.queue data s.consumed) fun _ t ht => ?_
    rw [wp_modify]
    obtain ⟨-, ⟨hnil, hq⟩ | ⟨hne, hdata, b, hb, hq⟩⟩ := ht
    · simp only [hq, if_pos hnil]
      refine ⟨⟨hs.queue.write, hs.queue.read, hs.queue.pc⟩, hs.taken, fun hrun => ?_⟩
      obtain ⟨h, hh⟩ := hs.order hrun
      exact ⟨h, hh.halves, hh.order, hh.empty⟩
    · simp only [hq, if_neg hne]
      exact hs.added horderly hdata hb _ _ _
  | putEof =>
    rw [step, wp_bind, wp_zoom]
    refine wp_weaken (putEof_result s.queue) fun _ q hq => ?_
    rw [wp_modify]
    obtain ⟨-, b, hb, rfl⟩ := hq
    exact hs.added horderly (by decide) hb _ _ s.consumed
  | getStep =>
    rw [step, wp_modify]
    by_cases hrun : s.worker.pc = .terminated
    · simp only [Channels.getStep, hrun]
      exact hs
    · obtain ⟨h, hh⟩ := hs.order hrun
      obtain ⟨htaken, horder⟩ := hh.getStep hs.queue horderly
      exact ⟨(getStep_ok hs.queue).1, htaken, horder⟩
  | callGet | otherEvent =>
    rw [step, wp_modify]
    split
    case isTrue hpc =>
      exact hs.goto (by rw [hpc]; decide) trivial (by rw [hpc]; rfl) fun he => he.elim
    case isFalse => exact hs

theorem start_inv (consumed : UInt32) : Inv { consumed := consumed } := by
  refine ⟨.init fun w hw => ?_, nil_prefix, fun _ => ?_⟩
  · cases hw
    rfl
  · exact ⟨⟨[], []⟩, .empty, rfl, fun _ => rfl⟩

/-- The consumer is given the messages in the order in which they were put, each once: those
it does not have yet are in the queue. It takes only where there is a message. -/
structure Delivers (s : WriteRun) : Prop where
  order : s.worker.received <+: s.put
  once : s.worker.pc ≠ .terminated →
    s.worker.received.length + s.queue.nReadBufMsgs + s.queue.nWriteBufMsgs = s.put.length
  nonempty : s.worker.pc = .take → 0 < s.queue.nReadBufMsgs ∧
    ∃ data rest, s.queue.readBuf.contents = putString data ++ rest

theorem Inv.delivers (hs : Inv s) : Delivers s where
  order := hs.taken
  once := by
    intro hrun
    obtain ⟨h, hh⟩ := hs.order hrun
    rw [hh.halves.read.count, hh.halves.write.count, ← hh.order, length_append,
      inOrder_length]
    omega
  nonempty := by
    intro hpc
    have hpos : 0 < s.queue.nReadBufMsgs := by
      have hpcOk := hs.queue.pc s.worker rfl
      rwa [hpc] at hpcOk
    obtain ⟨h, hh⟩ := hs.order (by rw [hpc]; decide)
    obtain ⟨m, rest, hread⟩ := hh.halves.read_cons hpos
    refine ⟨hpos, m, frames rest, ?_⟩
    rw [hh.halves.read.contents, hread]
    rfl

/-- **In order, when the run is orderly.** -/
theorem orderly_delivers (consumed : UInt32) (events : List WriteEvent) (s : WriteRun)
    (h : runAll step events { consumed := consumed } = .ok () s)
    (horderly : Meets step Orderly events { consumed := consumed }) : Delivers s := by
  have hrun := horderly.runAll step_inv (start_inv consumed)
  rw [wp_of_ok h] at hrun
  exact hrun.delivers

-- a message before the call, and another one while the consumer waits
theorem orderly_delivers_waiting :
    let events : List WriteEvent :=
      [.put [1], .callGet] ++ List.replicate 5 .getStep ++
        [.callGet, .getStep, .getStep, .getStep, .getStep, .put [2, 3]] ++ List.replicate 4 .getStep
    let s := endState (runAll step events) {}
    s.worker.received = [[1], [2, 3]] ∧ Delivers s := by
  intro events s
  exact ⟨by decide +kernel,
    orderly_delivers 0 events s (ok_endState (by decide +kernel)) (by decide +kernel)⟩

/-- One message is put after the consumer has found the queue empty, and one after it has
exchanged the halves: the second is delivered first. -/
theorem second_message_first :
    let events : List WriteEvent :=
      [.callGet, .getStep, .getStep, .getStep, .put [1], .getStep, .put [2], .getStep, .getStep,
        .getStep, .getStep]
    let s := endState (runAll step events) {}
    runAll step events {} = .ok () s ∧ s.put = [[1], [2]] ∧ s.worker.received = [[2]] ∧
      ¬ Delivers s := by
  intro events s
  have hput : s.put = [[1], [2]] := by decide +kernel
  have hreceived : s.worker.received = [[2]] := by decide +kernel
  refine ⟨ok_endState (by decide +kernel), hput, hreceived, fun hs => ?_⟩
  have horder := hs.order
  rw [hput, hreceived] at horder
  exact absurd horder (by decide)

end WriteRun

/-! ## §3 From the subsystem to the connection thread -/

/-- Where the connection thread is in `BusyThreadReadBuffer::get`. -/
inductive ReadPc where
  | outside
  | testRead
  | testWrite
  | swap
  | take
  deriving DecidableEq, Repr

/-- The queue, its reader, and the messages put so far. -/
structure ReadRun where
  queue : BusyThreadReadBuffer := {}
  pc : ReadPc := .outside
  -- the buffer that `get` is called with
  out : Buffer := .init
  put : List Bytes := []
  -- what the calls of `get` have added to `out`, and what they have returned
  obtained : List Bytes := []
  returned : List Bool := []

inductive ReadEvent where
  | put (data : Bytes)
  | callGet
  | getStep
  -- others use the reader's buffer
  | setOut (out : Buffer)

namespace ReadRun

def step (asString : Bool) : ReadEvent → EStateM Halt ReadRun Unit
  | .put data => do
    zoom queue (fun q s => { s with queue := q }) (BusyThreadReadBuffer.put data)
    modify fun s => { s with put := s.put ++ [data] }
  | .callGet => modify fun s => if s.pc = .outside then { s with pc := .testRead } else s
  | .getStep => do
    let s ← get
    match s.pc with
    | .outside => pure ()
    | .testRead => set { s with pc := if s.queue.nReadBufMsgs ≠ 0 then .take else .testWrite }
    | .testWrite =>
      if s.queue.nWriteBufMsgs ≠ 0 then
        set { s with pc := .swap }
      else
        set { s with
          queue := { s.queue with dataReady := false }
          pc := .outside
          returned := s.returned ++ [false] }
    | .swap => set { s with queue := s.queue.swap, pc := .take }
    | .take => do
      zoom (fun s => (s.queue, s.out)) (fun (q, out) s => { s with queue := q, out := out })
        (BusyThreadReadBuffer.take asString)
      modify fun s' =>
        { s' with
          pc := .outside
          obtained := s'.obtained ++ [s'.out.contents.drop s.out.len]
          returned := s'.returned ++ [true] }
  | .setOut out => modify fun s => { s with out := out }

/-- What a message becomes in the reader's buffer. -/
def format (asString : Bool) (data : Bytes) : Bytes := if asString then putString data else data

/-- What a place in `get` tells about the halves. -/
def HalvesAt (h : Halves Bytes) : ReadPc → Prop
  | .testWrite => h.read = []
  | .swap => h.read = [] ∧ h.write ≠ []
  | .take => h.read ≠ []
  | .outside | .testRead => True

structure InOrder (asString : Bool) (s : ReadRun) (h : Halves Bytes) : Prop where
  halves : HoldsHalves s.queue.readBuf s.queue.writeBuf s.queue.nReadBufMsgs
    s.queue.nWriteBufMsgs h
  order : s.obtained ++ (h.inOrder false).map (format asString) = s.put.map (format asString)
  pc : HalvesAt h s.pc
  calls : s.obtained.length = s.returned.count true

variable {asString : Bool} {s : ReadRun} {h : Halves Bytes}

theorem appendTo_spec (asString : Bool) (data : Bytes) (b : Buffer) :
    wp (if asString then Buffer.putString data else Buffer.append data)
      (fun _ b' => b'.contents = b.contents ++ format asString data) any b := by
  rw [wp_ite]
  constructor
  · intro hstring
    rw [format, if_pos hstring]
    exact Buffer.putString_spec data b
  · intro hraw
    rw [format, if_neg hraw]
    exact wp_weaken (Buffer.append_spec data b) fun _ _ hb => hb

/-- `take` moves the first message to the reader's buffer. -/
theorem take_spec {q : BusyThreadReadBuffer} {m : Bytes} {rest : List Bytes}
    (hread : Holds q.readBuf q.nReadBufMsgs [] (m :: rest)) (out : Buffer) :
    wp (BusyThreadReadBuffer.take asString)
      (fun _ t => Holds t.1.readBuf t.1.nReadBufMsgs [] rest ∧ t.1.writeBuf = q.writeBuf ∧
        t.1.nWriteBufMsgs = q.nWriteBufMsgs ∧
        t.2.contents = out.contents ++ format asString m)
      any (q, out) := by
  rw [BusyThreadReadBuffer.take, wp_update, wp_bind, wp_zoom]
  refine wp_weaken hread.getString_spec fun data b hb => ?_
  obtain ⟨rfl, hb⟩ := hb
  rw [wp_bind, wp_zoom]
  refine wp_weaken (appendTo_spec asString data out) fun _ out' hout => ?_
  rw [wp_modify]
  exact ⟨hb, rfl, rfl, hout⟩

theorem InOrder.take (hs : InOrder asString s h) (hpc : s.pc = .take) :
    wp (step asString .getStep) (fun _ s' => ∃ h', InOrder asString s' h') any s := by
  have hne : h.read ≠ [] := by
    have hat := hs.pc
    rwa [hpc] at hat
  obtain ⟨m, rest, hread⟩ := exists_cons_of_ne_nil hne
  have hfirst := hs.halves.read
  rw [hread] at hfirst
  rw [step, wp_read]
  simp only [hpc]
  rw [wp_bind, wp_zoom]
  refine wp_weaken (take_spec hfirst s.out) fun _ t ht => ?_
  obtain ⟨hrest, hwriteBuf, hcount, hout⟩ := ht
  rw [wp_modify]
  have hpiece : t.2.contents.drop s.out.len = format asString m := by
    rw [hout, ← Buffer.contents_length, drop_left]
  refine ⟨⟨rest, h.write⟩, ⟨hrest, ?_⟩, ?_, trivial, ?_⟩
  · simp only [hwriteBuf, hcount]
    exact hs.halves.write
  · simp only [hpiece]
    rw [← hs.order, inOrder_cons hread, map_cons, append_assoc,
      singleton_append]
  · simp only [length_append, count_append, hs.calls]
    rfl

theorem InOrder.getStep (hs : InOrder asString s h) :
    wp (step asString .getStep) (fun _ s' => ∃ h', InOrder asString s' h') any s := by
  cases hpc : s.pc with
  | outside =>
    rw [step, wp_read]
    simp only [hpc]
    rw [wp_pure]
    exact ⟨h, hs⟩
  | testRead =>
    rw [step, wp_read]
    simp only [hpc]
    rw [wp_set]
    refine ⟨h, hs.halves, hs.order, ?_, hs.calls⟩
    split
    case isTrue hne =>
      intro hnil
      have hcount := hs.halves.read.count
      rw [hnil] at hcount
      exact hne hcount
    case isFalse hzero => exact hs.halves.read_nil (by omega)
  | testWrite =>
    have hempty : h.read = [] := by
      have hat := hs.pc
      rwa [hpc] at hat
    rw [step, wp_read]
    simp only [hpc]
    rw [wp_ite, wp_set, wp_set]
    constructor
    · intro hne
      refine ⟨h, hs.halves, hs.order, ⟨hempty, fun hnil => ?_⟩, hs.calls⟩
      have hcount := hs.halves.write.count
      rw [hnil] at hcount
      exact hne hcount
    · intro _
      refine ⟨h, hs.halves, hs.order, trivial, ?_⟩
      simp [hs.calls]
  | swap =>
    have hat : h.read = [] ∧ h.write ≠ [] := by
      have hat := hs.pc
      rwa [hpc] at hat
    rw [step, wp_read]
    simp only [hpc]
    rw [wp_set]
    -- the half that was read is empty, so that exchanging keeps the order
    refine ⟨h.swap, hs.halves.swap, ?_, hat.2, hs.calls⟩
    rw [inOrder_swap, inOrder_of_read_nil hat.1,
      ← inOrder_of_read_nil hat.1 false]
    exact hs.order
  | take => exact hs.take hpc

theorem HalvesAt.put {pc : ReadPc} (hat : HalvesAt h pc) (data : Bytes) :
    HalvesAt (h.put data) pc := by
  cases pc with
  | outside => trivial
  | testRead => trivial
  | testWrite => exact hat
  | swap => exact ⟨hat.1, by simp [Halves.put]⟩
  | take => exact hat

def Inv (asString : Bool) (s : ReadRun) : Prop := ∃ h, InOrder asString s h

theorem step_inv (asString : Bool) (event : ReadEvent) :
    Keeps (Inv asString) (step asString event) (fun _ => True) := by
  intro s hs
  obtain ⟨h, hs⟩ := hs
  cases event with
  | put data =>
    rw [step, wp_bind, wp_zoom, BusyThreadReadBuffer.put, wp_bind, wp_zoom]
    refine wp_weaken (putString_accepted data s.queue.writeBuf) fun _ b hb => ?_
    rw [wp_modify, wp_modify]
    refine ⟨h.put data, hs.halves.put hb.1 hb.2, ?_, hs.pc.put data, hs.calls⟩
    rw [inOrder_put _ _ _ (fun hcrossed => by cases hcrossed), map_append,
      map_append, ← append_assoc, hs.order]
  | callGet =>
    rw [step, wp_modify]
    split
    case isTrue => exact ⟨h, hs.halves, hs.order, trivial, hs.calls⟩
    case isFalse => exact ⟨h, hs⟩
  | getStep => exact hs.getStep
  | setOut out =>
    rw [step, wp_modify]
    exact ⟨h, hs.halves, hs.order, hs.pc, hs.calls⟩

/-- `get` fails only where both halves are empty. -/
theorem InOrder.fails_empty (hs : InOrder asString s h) {s' : ReadRun}
    (hstep : step asString .getStep s = .ok () s')
    (hfails : s'.returned = s.returned ++ [false]) : h = ⟨[], []⟩ := by
  have hnot : ∀ pc, s'.returned ≠ s.returned → s.pc = pc → pc = .take ∨ pc = .testWrite := by
    intro pc hne hpc
    cases pc with
    | take => exact .inl rfl
    | testWrite => exact .inr rfl
    | outside | testRead | swap =>
      simp only [step, hpc, get_bind_apply] at hstep
      cases hstep
      exact absurd rfl hne
  have hne : s'.returned ≠ s.returned := by
    rw [hfails]
    simp
  rcases hnot s.pc hne rfl with hpc | hpc
  · have htrue : wp (step asString .getStep)
        (fun _ s' => s'.returned = s.returned ++ [true]) any s := by
      rw [step, wp_read]
      simp only [hpc]
      rw [wp_bind, wp_zoom]
      exact wp_intro (fun _ t _ => by rw [wp_modify]) fun _ _ _ => trivial
    rw [wp_of_ok hstep, hfails] at htrue
    exact absurd htrue (by simp)
  · have hread : h.read = [] := by
      have hat := hs.pc
      rwa [hpc] at hat
    have hwrite : h.write = [] := by
      apply hs.halves.write_nil
      by_contra hsome
      simp only [step, hpc, get_bind_apply, if_pos hsome] at hstep
      cases hstep
      exact hne rfl
    cases h
    simp only at hread hwrite
    rw [hread, hwrite]

/-- **In order, always.** The calls of `get` have added to the reader's buffer what was put
first, one message each, and the other messages are in the queue. A call that is about to
return false finds both halves empty. -/
theorem read_queue_fifo (asString : Bool) (events : List ReadEvent) (s : ReadRun)
    (h : runAll (step asString) events {} = .ok () s) :
    (s.obtained <+: s.put.map (format asString) ∧
      s.obtained.length = s.returned.count true ∧
      s.obtained.length + s.queue.nReadBufMsgs + s.queue.nWriteBufMsgs = s.put.length) ∧
    ∀ s', step asString .getStep s = .ok () s' → s'.returned = s.returned ++ [false] →
      s.queue.nReadBufMsgs = 0 ∧ s.queue.readBuf.contents = [] ∧
      s.queue.nWriteBufMsgs = 0 ∧ s.queue.writeBuf.contents = [] := by
  have hrun := Keeps.runAll (step_inv asString) events {} ⟨⟨[], []⟩, .empty, rfl, trivial, rfl⟩
  rw [wp_of_ok h] at hrun
  obtain ⟨halves, hs⟩ := hrun
  refine ⟨⟨⟨_, hs.order⟩, hs.calls, ?_⟩, ?_⟩
  · have hlength := congrArg length hs.order
    simp only [length_append, length_map, inOrder_length] at hlength
    rw [hs.halves.read.count, hs.halves.write.count]
    omega
  · intro s' hstep hfails
    have hempty := hs.fails_empty hstep hfails
    rw [hempty] at hs
    exact ⟨hs.halves.read.count, hs.halves.read.contents, hs.halves.write.count,
      hs.halves.write.contents⟩

-- the second message is put while the reader is between its tests
theorem read_queue_fifo_two :
    let events : List ReadEvent :=
      [.put [1], .callGet, .getStep, .put [2, 3], .getStep, .getStep, .getStep, .callGet, .getStep,
        .getStep]
    let s := endState (runAll (step false) events) {}
    s.obtained = [[1], [2, 3]] ∧
      s.obtained.length + s.queue.nReadBufMsgs + s.queue.nWriteBufMsgs = s.put.length := by
  intro events s
  exact ⟨by decide +kernel,
    (read_queue_fifo false events s (ok_endState (by decide +kernel))).1.2.2⟩

end ReadRun

end Shiesh.Channels
