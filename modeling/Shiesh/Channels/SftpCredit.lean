import Shiesh.Channels.Credit

/-!
# Incoming Credit of an SFTP Channel

The subsystem counts only what is inside the messages. `descending2subproc` has to credit
their length fields, and does so only when there is other credit at that moment. The other
length fields are lost to the peer.

## Main result

- `sftp_credit_settled`: when everything has been taken and collected, the window is whole
  exactly if no length field was lost, modulo `2 ^ 32`
-/

namespace Shiesh.Channels

open Shiesh.Lib SessionChannel Buffer Ledger

namespace SFTPChannel

/-- A whole message is about to be forwarded while there is no other credit. -/
def losesHeader (s : SessionChannel) : Bool :=
  s.base.isOpened && isCompletePacketInDescending s.base.descending &&
    (s.base.localConsumed - s.fromChannel.nWriteConsumed.toUInt32) == 0

def losesHeaderAt (event : SessionChannel.Event) (s : SessionChannel) : Bool :=
  match event with
  | .post => !s.deleted && losesHeader s
  | _ => false

variable {s : SessionChannel} {lost : Nat}

theorem bytesFrom_length (b : Buffer) (n : Nat) : (bytesFrom b n).length = n := by
  simp only [bytesFrom, List.length_append, List.length_take, List.length_replicate,
    contents_length]
  omega

theorem putFromChannel_spec (s : SessionChannel) (hs : QueueOk s.subsystem s.fromChannel)
    (data : Bytes) :
    wp (putFromChannel data)
      (fun _ s' => ∃ q, QueueOk s.subsystem q ∧ q.waiting = s.fromChannel.waiting + data.length ∧
        q.nReadConsumed = s.fromChannel.nReadConsumed ∧ q.nWriteConsumed = 0 ∧
        s' = { s with
          fromChannel := q
          base := { s.base with
            localConsumed := s.base.localConsumed - s.fromChannel.nWriteConsumed.toUInt32 } })
      any s := by
  rw [putFromChannel, wp_zoom]
  refine wp_weaken (put_spec hs data s.base.localConsumed) fun _ t ht => ?_
  obtain ⟨hqueue, hwaiting, hread, hwrite, hconsumed⟩ := ht
  refine ⟨t.1, hqueue, hwaiting, hread, hwrite, ?_⟩
  rw [← hconsumed]

/-- The credit after a length field has been credited, if it is. -/
def withHeader (consumed : UInt32) : UInt32 := if consumed ≠ 0 then consumed + 4 else consumed

theorem creditHeader_eq (c : Channel) :
    (if c.localConsumed ≠ 0 then { c with localConsumed := c.localConsumed + 4 } else c) =
      { c with localConsumed := withHeader c.localConsumed } := by
  rw [withHeader]
  split <;> rfl

/-- The ledger after what the subsystem has consumed has been collected -/
def collected (l : Ledger) : Ledger := { l with consumed := l.consumed - l.counted, counted := 0 }

/-- The ledger after a whole message of `n` bytes has been forwarded -/
def forwarded (n : Nat) (l : Ledger) : Ledger :=
  { l with
    buffered := l.buffered - 4 - n
    waiting := l.waiting + n
    consumed := withHeader l.consumed }

/-- The rules of the ledger for a whole message of `n` bytes. -/
theorem Owes.message {l : Ledger} (h : Ledger.Owes lost l) {n : Nat} (hn : 4 + n ≤ l.buffered) :
    Ledger.Owes (lost + if l.consumed = 0 then 4 else 0) (forwarded n l) := by
  rw [forwarded, withHeader]
  by_cases hnone : l.consumed = 0
  · have hlost := h.lose (n := 4) (by omega)
    rw [if_pos hnone, if_neg (not_not.mpr hnone)]
    exact hlost.handOver (n := n) (by simp only; omega)
  · have hcredit := h.credit (n := 4) (by omega)
    rw [if_neg hnone, if_pos hnone]
    exact hcredit.handOver (n := n) (by simp only; omega)

/-- **Forwarding a message.** What the subsystem has consumed is collected, the message goes
to `fromChannel`, and its length field is credited or lost. -/
theorem descending2subproc_effect (hqueue : QueueOk s.subsystem s.fromChannel) :
    wp descending2subproc
      (fun _ s' => QueueOk s'.subsystem s'.fromChannel ∧
        s'.base.isOpened = s.base.isOpened ∧
        if isCompletePacketInDescending s.base.descending then
          ∃ n, 4 + n ≤ (ledger s).buffered ∧ ledger s' = forwarded n (collected (ledger s))
        else ledger s' = collected (ledger s))
      any s := by
  rw [descending2subproc, wp_read, wp_ite]
  constructor
  · intro hpart
    have hpart' : isCompletePacketInDescending s.base.descending = false := by simpa using hpart
    refine wp_weaken (putFromChannel_spec s hqueue []) fun _ s' hs' => ?_
    obtain ⟨q, hq, hwaiting, hread, hwrite, rfl⟩ := hs'
    refine ⟨hq, rfl, ?_⟩
    simp only [hpart', ledger, collected, hwaiting, hread, hwrite]
    rfl
  · intro hwhole
    have hcomplete : isCompletePacketInDescending s.base.descending = true := by
      simpa using hwhole
    rw [wp_bind, onBase, wp_zoom, onDescending, wp_zoom]
    refine wp_weaken (getInt_spec _) fun msgLen b1 hb1 => ?_
    obtain ⟨hfour, -, hb1⟩ := hb1
    rw [wp_read, wp_bind]
    refine wp_weaken
      (putFromChannel_spec { s with base := { s.base with descending := b1 } } hqueue _)
      fun _ s2 hs2 => ?_
    obtain ⟨q, hq, hwaiting, hread, hwrite, rfl⟩ := hs2
    rw [bytesFrom_length] at hwaiting
    rw [wp_bind, onBase_modify, creditHeader_eq, onBase, wp_zoom, onDescending, wp_zoom]
    refine wp_weaken (consume_spec _ _) fun _ b2 hb2 => ?_
    obtain ⟨hwithin, hb2⟩ := hb2
    have hlen1 : b1.len = s.base.descending.len - 4 := by
      rw [← b1.contents_length, hb1, List.length_drop, contents_length]
    have hlen2 : b2.len = s.base.descending.len - 4 - msgLen.toNat := by
      rw [← b2.contents_length, hb2, List.length_drop, contents_length, hlen1]
    refine ⟨hq, rfl, ?_⟩
    rw [if_pos hcomplete]
    refine ⟨msgLen.toNat, ?_, ?_⟩
    · simp only [ledger]
      simp only at hwithin
      omega
    · simp only [ledger, forwarded, collected, hlen2, hwaiting, hread, hwrite]
      rfl

theorem descending2subproc_owes (hs : KeptOpen (Ledger.Owes lost) Larval s) :
    wp descending2subproc
      (fun _ => KeptOpen (Ledger.Owes (lost + if losesHeader s then 4 else 0)) Larval)
      any s := by
  have hcollected : Ledger.Owes lost (collected (ledger s)) :=
    stable_owes lost (.collect _) hs.1.kept
  refine wp_imp (descending2subproc_effect hs.1.queue) fun _ s' hs' => ?_
  obtain ⟨hqueue, hopened, hledger⟩ := hs'
  have hopen : s'.base.isOpened = true := hopened.trans hs.2
  refine ⟨⟨hqueue, ?_, fun hnot => by cases hopen.symm.trans hnot⟩, hopen⟩
  split at hledger
  case isTrue hcomplete =>
    obtain ⟨n, hn, hledger⟩ := hledger
    have hloses : losesHeader s = decide ((collected (ledger s)).consumed = 0) := by
      simp only [losesHeader, hs.2, hcomplete, Bool.true_and]
      rfl
    rw [hledger, hloses]
    simpa only [decide_eq_true_eq] using Owes.message hcollected hn
  case isFalse hpart =>
    have hkeeps : losesHeader s = false := by simp [losesHeader, hpart]
    rw [hledger, hkeeps]
    exact hcollected

theorem channelPost_owes (hs : KeptBy (Ledger.Owes lost) Larval s) :
    wp channelPost
      (fun _ => KeptBy (Ledger.Owes (lost + if losesHeader s then 4 else 0)) Larval)
      any s := by
  have hcollect : ∀ lost', Keeps (KeptBy (Ledger.Owes lost') Larval)
      garbageCollect ⊤ := fun lost' =>
    (garbageCollect_kept (larval_rules (stable_owes lost')).frugal).mono fun _ _ => trivial
  have hcheck : ∀ lost', Keeps (KeptOpen (Ledger.Owes lost') Larval)
      (onBase Channel.channelCheckWindow) ⊤ := fun lost' =>
    channelCheckWindow_kept (larval_rules (stable_owes lost')).frugal
  rw [channelPost, wp_read, wp_ite]
  constructor
  · intro hopened
    -- `subproc2ascending` leaves alone what decides about the length field
    have hascending : wp subproc2ascending
        (fun _ s1 => KeptOpen (Ledger.Owes lost) Larval s1 ∧ losesHeader s1 = losesHeader s)
        any s := by
      rw [subproc2ascending, wp_bind, wp_zoom]
      refine wp_intro (fun _ t _ => ?_) fun _ _ _ => trivial
      rw [wp_pure]
      exact ⟨⟨⟨hs.queue, hs.kept, fun hnot => by cases hopened.symm.trans hnot⟩, hopened⟩, rfl⟩
    refine wp_seq_any hascending fun _ s1 hs1 => ?_
    refine wp_seq_any (descending2subproc_owes hs1.1) fun _ s2 hs2 => ?_
    rw [hs1.2] at hs2
    refine wp_seq_any (hcheck _ s2 hs2) fun _ s3 hs3 => ?_
    exact hcollect _ s3 hs3.1
  · intro hclosed
    have hkeeps : losesHeader s = false := by
      simp only [Bool.not_eq_true] at hclosed
      simp [losesHeader, hclosed]
    rw [hkeeps]
    exact hcollect lost s hs

theorem step_owes (n : Nat) (event : SessionChannel.Event) (s : SessionChannel)
    (hs : KeptBy (Ledger.Owes (4 * n)) Larval s) :
    wp (step event)
      (fun _ => KeptBy (Ledger.Owes (4 * (n + if losesHeaderAt event s then 1 else 0))) Larval)
      any s := by
  rw [step, wp_read, wp_ite]
  constructor
  · intro hdeleted
    have hkeeps : losesHeaderAt event s = false := by
      cases event <;> simp [losesHeaderAt, hdeleted]
    rw [wp_pure, hkeeps]
    exact hs
  · intro hdeleted
    by_cases hpost : event = .post
    · rw [hpost]
      have hlost : 4 * (n + if losesHeaderAt .post s then 1 else 0) =
          4 * n + if losesHeader s then 4 else 0 := by
        simp only [Bool.not_eq_true] at hdeleted
        simp only [losesHeaderAt, hdeleted, Bool.not_false, Bool.true_and]
        split <;> rfl
      rw [hlost]
      exact channelPost_owes hs
    · have hkeeps : losesHeaderAt event s = false := by
        cases event with
        | post => exact absurd rfl hpost
        | _ => rfl
      have hinherited : stepEvent event = SessionChannel.stepEvent event := by
        cases event with
        | post => exact absurd rfl hpost
        | _ => rfl
      rw [hkeeps, hinherited]
      exact stepEvent_kept (stable_owes _) event hpost s hs

/-- The subsystem has taken every message that was forwarded, and all it has consumed has
been collected. -/
structure Settled (s : SessionChannel) : Prop where
  whole : isCompletePacketInDescending s.base.descending = false
  taken : s.fromChannel.waiting = 0
  collected : s.fromChannel.nReadConsumed = 0 ∧ s.fromChannel.nWriteConsumed = 0

/-- **Incoming credit of SFTP channels.** In every settled state that a channel reaches, the
windows and `descending` add up to the window granted exactly if the length fields that were
lost do not count, modulo `2 ^ 32`. -/
theorem sftp_credit_settled (remoteId rwindow rmaxpack : UInt32)
    (events : List SessionChannel.Event) (s : SessionChannel)
    (h : runAll step events (create remoteId rwindow rmaxpack) = .ok () s)
    (hsettled : Settled s) :
    s.base.localWindow + s.base.localConsumed =
        s.base.localWindowMax - UInt32.ofNat s.base.descending.len ↔
      2 ^ 30 ∣ hits step losesHeaderAt events (create remoteId rwindow rmaxpack) := by
  have hrun := wp_runAll_hits (fun n => KeptBy (Ledger.Owes (4 * n)) Larval) step_owes events 0 _
    (create_kept (owes_blank true) remoteId rwindow rmaxpack)
  rw [wp_of_ok h, zero_add] at hrun
  generalize hits step losesHeaderAt events (.create remoteId rwindow rmaxpack) = n
    at hrun ⊢
  have hbalance := Ledger.Ok.conserved hrun.kept
  simp only [shrunk, balance, held, ledger, hsettled.taken,
    hsettled.collected.1, hsettled.collected.2, add_zero] at hbalance
  have hzero : (0 : Int32).toUInt32 = 0 := rfl
  rw [hzero] at hbalance
  have hlost : UInt32.ofNat (4 * n) = 0 ↔ 2 ^ 30 ∣ n := by
    rw [← UInt32.toNat_inj, UInt32.toNat_ofNat', UInt32.toNat_zero]
    omega
  rw [← hlost]
  constructor
  · intro hwhole
    rw [hwhole] at hbalance
    grind
  · intro hnone
    rw [hnone] at hbalance
    grind

-- the length field is credited, because there is credit for data that came after EOF
theorem sftp_credit_settled_discarded :
    let events : List SessionChannel.Event :=
      [.request true, .data (putString [0, 0, 0, 1, 7]), .eof [], .data (putString [9, 9]), .post,
        .callGet, .getStep, .getStep, .getStep, .getStep, .getStep,
        .callGet, .getStep, .getStep, .getStep, .getStep, .post]
    let s := endState (runAll step events) (create 7 100 100)
    s.subsystem.map Worker.received = some [[7]] ∧
      s.base.localWindow + s.base.localConsumed =
        s.base.localWindowMax - UInt32.ofNat s.base.descending.len := by
  intro events s
  have hhits : hits step losesHeaderAt events (create 7 100 100) = 0 := by
    decide +kernel
  refine ⟨by decide +kernel, ?_⟩
  refine (sftp_credit_settled 7 100 100 events s (ok_endState (by decide +kernel)) ?_).mpr ?_
  · exact ⟨by decide +kernel, by decide +kernel, by decide +kernel, by decide +kernel⟩
  · rw [hhits]
    exact Nat.dvd_zero _

/-- One message, taken by the subsystem and collected: four bytes of credit are gone. -/
theorem first_header_lost :
    let events : List SessionChannel.Event :=
      [.request true, .data (putString [0, 0, 0, 1, 7]), .post,
        .callGet, .getStep, .getStep, .getStep, .getStep, .getStep,
        .callGet, .getStep, .getStep, .getStep, .getStep, .post]
    let s := endState (runAll step events) (create 7 100 100)
    runAll step events (create 7 100 100) = .ok () s ∧ Settled s ∧
      s.subsystem.map Worker.received = some [[7]] ∧ s.base.descending.len = 0 ∧
      s.base.localWindow + s.base.localConsumed = s.base.localWindowMax - 4 ∧
      s.base.localWindow + s.base.localConsumed ≠
        s.base.localWindowMax - UInt32.ofNat s.base.descending.len := by
  intro events s
  refine ⟨ok_endState (by decide +kernel), ⟨by decide +kernel, by decide +kernel,
    by decide +kernel, by decide +kernel⟩, by decide +kernel, by decide +kernel,
    by decide +kernel, by decide +kernel⟩

end SFTPChannel

end Shiesh.Channels
