import Shiesh.Channels.LifeFunctions
import Shiesh.Channels.SftpCredit

/-!
# Reassembling SFTP Messages

`SFTPChannel::descending2subproc` takes the next whole message out of `descending`. Whether there
is one is decided by `is_complete_packet_in_descending`, which adds 4 to the length field in 32
bits. The four greatest lengths wrap around, so that five bytes seem to be enough for a message of
4 GB. Nothing is read behind the end of the buffer then, because the length is refused by
`buffer_append_space` before a byte is copied; but the refusal is a `fatal`.

- `descending2subproc_result`: what a call does, when it returns and when it throws
- `reassembly_guard`: when the answer of `is_complete_packet_in_descending` is right
-/

namespace Shiesh.Channels

open Shiesh.Lib List Buffer Nat

namespace SFTPChannel
open BusyThreadWriteBuffer (onWriteBuf put)

variable {s s' : SessionChannel}

/-! ## The length field -/

variable {b : Buffer} {data m : Bytes} (q : BusyThreadWriteBuffer)

theorem msgLen_field (h : 4 ≤ b.len) : b.contents = putU32 (msgLen b) ++ b.contents.drop 4 := by
  have hlen : (b.contents.take 4).length = 4 := by
    rw [length_take, contents_length]
    exact min_eq_left h
  rw [msgLen, putU32_getU32 hlen, take_append_drop]

theorem toNat_length (h : m.length ≤ bufferMaxChunk) : (UInt32.ofNat m.length).toNat = m.length :=
  UInt32.toNat_ofNat_of_lt (lt_of_le_of_lt h (by decide))

theorem msgLen_putString {rest : Bytes} (hb : b.contents = putString m ++ rest)
    (hm : m.length ≤ bufferMaxChunk) : (msgLen b).toNat = m.length := by
  rw [msgLen, hb, putString, append_assoc, take_left' (putU32_length _), getU32_putU32,
    toNat_length hm]

/-- A whole message: a byte behind the length field, and as many as it says. -/
def HoldsMessage (b : Buffer) : Prop := 5 ≤ b.len ∧ 4 + (msgLen b).toNat ≤ b.len

/-- The test as it is made: the sum has 32 bits. -/
theorem isComplete_iff (b : Buffer) :
    isCompletePacketInDescending b = true ↔
      5 ≤ b.len ∧ ((msgLen b).toNat + 4) % 2 ^ 32 ≤ b.len := by
  have hsmall : (UInt32.ofNat b.len).toNat = b.len := UInt32.toNat_ofNat_of_lt b.len_lt_size
  have hsum : (msgLen b + 4).toNat = ((msgLen b).toNat + 4) % 2 ^ 32 := UInt32.toNat_add _ _
  rw [isCompletePacketInDescending]
  by_cases hshort : b.len < 5
  · rw [if_pos hshort]
    refine ⟨fun h => ?_, fun h => ?_⟩
    · cases h
    · omega
  · rw [if_neg hshort, Bool.not_eq_true', decide_eq_false_iff_not, UInt32.lt_iff_toNat_lt, hsmall,
      hsum]
    omega

/-- The length fields that the test is right about -/
theorem isComplete_right_iff (b : Buffer) :
    (isCompletePacketInDescending b = true ↔ HoldsMessage b) ↔
      b.len < 5 ∨ (msgLen b).toNat + 4 < 2 ^ 32 := by
  have hmax := (msgLen b).toNat_lt
  have hlen : b.len < 2 ^ 32 := b.len_lt_size
  rw [isComplete_iff, HoldsMessage]
  by_cases hwraps : (msgLen b).toNat + 4 < 2 ^ 32
  · rw [mod_eq_of_lt hwraps]
    omega
  · have hrest : ((msgLen b).toNat + 4) % 2 ^ 32 = (msgLen b).toNat + 4 - 2 ^ 32 := by omega
    rw [hrest]
    omega

/-! ## Passing a message on -/

/-- `put` has added the message to the queue, if it is not empty, and has collected the count of
consumed bytes. -/
def PutTo (q : BusyThreadWriteBuffer) (m : Bytes) (q' : BusyThreadWriteBuffer) : Prop :=
  m = [] ∧ q' = { q with nWriteConsumed := 0 } ∨
    m ≠ [] ∧ ∃ b, b.contents = q.writeBuf.contents ++ putString m ∧
      q' = { q with
        writeBuf := b
        nWriteBufMsgs := q.nWriteBufMsgs + 1
        dataArrived := q.dataArrived || decide (q.nWriteBufMsgs = 0)
        nWriteConsumed := 0 }

theorem PutTo.len_le {q q' : BusyThreadWriteBuffer} (h : PutTo q m q') :
    q'.writeBuf.len ≤ q.writeBuf.len + (m.length + 4) := by
  obtain ⟨-, rfl⟩ | ⟨-, b, hb, rfl⟩ := h
  · exact le_add_right _ _
  · show b.len ≤ _
    rw [← contents_length, hb, length_append, contents_length, putString_length]
    omega

/-- The message `m` has been taken from the front of `descending` and passed on, or there was no
whole one. Nothing else has changed but the credit. -/
structure Passed (m : Bytes) (s s' : SessionChannel) : Prop where
  queue : PutTo s.fromChannel m s'.fromChannel
  descending : if isCompletePacketInDescending s.base.descending then
      s.base.descending.contents = putString m ++ s'.base.descending.contents
    else m = [] ∧ s'.base.descending = s.base.descending
  others : s' = { s with
    fromChannel := s'.fromChannel
    base := { s.base with
      localConsumed := s'.base.localConsumed
      descending := s'.base.descending } }

/-- What was taken came from the front of `descending`, and nothing else has been copied to
`fromChannel` than a part of it, behind a length field. -/
def WithinDescending (s s' : SessionChannel) : Prop :=
  ∃ taken header m, s.base.descending.contents = taken ++ s'.base.descending.contents ∧
    m <:+ taken ∧ header.length ≤ 4 ∧
    s'.fromChannel.writeBuf.contents = s.fromChannel.writeBuf.contents ++ (header ++ m)

theorem WithinDescending.of_header (taken header : Bytes)
    (htaken : s.base.descending.contents = taken ++ s'.base.descending.contents)
    (hheader : header.length ≤ 4)
    (hqueue : s'.fromChannel.writeBuf.contents = s.fromChannel.writeBuf.contents ++ header) :
    WithinDescending s s' :=
  ⟨taken, header, [], htaken, nil_suffix, hheader, by rw [append_nil]; exact hqueue⟩

theorem Passed.within (h : Passed m s s') : WithinDescending s s' := by
  have hdescending := h.descending
  split at hdescending
  case isTrue =>
    obtain ⟨hnil, hq⟩ | ⟨-, b, hb, hq⟩ := h.queue
    · refine .of_header _ [] hdescending (zero_le _) ?_
      rw [hq, append_nil]
    · refine ⟨putString m, putU32 (UInt32.ofNat m.length), m, hdescending, suffix_append _ _,
        le_of_eq (putU32_length _), ?_⟩
      rw [hq]
      exact hb
  case isFalse =>
    obtain ⟨hnil, hq⟩ | ⟨hne, -⟩ := h.queue
    · refine .of_header [] [] ?_ (zero_le _) ?_
      · rw [hdescending.2, nil_append]
      · rw [hq, append_nil]
    · exact absurd hdescending.1 hne

/-- A put copies a chunk at most, and one that fails has copied nothing. -/
theorem put_refused (data : Bytes) (consumed : UInt32) :
    wp (put data) (fun _ _ => data.length ≤ bufferMaxChunk)
      (fun _ t => ∃ rest, rest.length ≤ 4 ∧
        t.1.writeBuf.contents = q.writeBuf.contents ++ rest) (q, consumed) := by
  rw [put, wp_update, wp_ite, wp_pure]
  refine ⟨fun hnil => ?_, fun _ => ?_⟩
  · rw [hnil]
    exact zero_le _
  · rw [wp_read, wp_bind, wp_zoom, onWriteBuf, wp_zoom]
    exact wp_imp (putString_error data q.writeBuf) fun _ _ h => (wp_modify _).mpr h

theorem put_putTo (data : Bytes) (consumed : UInt32) :
    wp (put data) (fun _ t => PutTo q data t.1) any (q, consumed) :=
  wp_weaken (put_result q data consumed) fun _ _ ht => ht.2.imp_right fun h => ⟨h.1, h.2.2⟩

theorem putFromChannel_result (s : SessionChannel) (data : Bytes) :
    wp (putFromChannel data)
      (fun _ s' => PutTo s.fromChannel data s'.fromChannel ∧ data.length ≤ bufferMaxChunk ∧
        s' = { s with
          fromChannel := s'.fromChannel
          base := { s.base with localConsumed := s'.base.localConsumed } })
      (fun _ s' => s'.base.descending = s.base.descending ∧ ∃ rest, rest.length ≤ 4 ∧
        s'.fromChannel.writeBuf.contents = s.fromChannel.writeBuf.contents ++ rest) s := by
  rw [putFromChannel, wp_zoom]
  exact wp_mono (wp_and (put_putTo s.fromChannel data s.base.localConsumed)
    (put_refused s.fromChannel data s.base.localConsumed)) (fun _ _ ht => ⟨ht.1, ht.2, rfl⟩)
    fun _ _ ht => ⟨rfl, ht.2⟩

theorem put_fits (hchunk : data.length ≤ bufferMaxChunk)
    (q : BusyThreadWriteBuffer) (consumed : UInt32)
    (hroom : data = [] ∨ q.writeBuf.len + 4 ≤ 6 * bufferMaxChunk) :
    wp (put data) any never (q, consumed) := by
  rw [put, wp_update, wp_ite, wp_pure]
  refine ⟨fun _ => trivial, fun hsome => ?_⟩
  rw [wp_read, wp_bind, wp_zoom, onWriteBuf, wp_zoom]
  refine wp_mono_total (putString_fits (hroom.resolve_left hsome) hchunk) fun _ _ _ => ?_
  rw [wp_modify]
  trivial

theorem putFromChannel_fits (hchunk : data.length ≤ bufferMaxChunk)
    (hroom : data = [] ∨ s.fromChannel.writeBuf.len + 4 ≤ 6 * bufferMaxChunk) :
    wp (putFromChannel data) (fun _ s' => s'.base.descending = s.base.descending)
      never s := by
  rw [putFromChannel, wp_zoom]
  exact wp_mono_total (put_fits hchunk _ _ hroom) fun _ _ _ => rfl

/-- Behind the length field stands the message, and it has been read as it stands there. -/
theorem bytesFrom_eq {n : Nat} (h : n ≤ b.len) : bytesFrom b n = b.contents.take n := by
  rw [bytesFrom, Nat.sub_eq_zero_of_le h, replicate_zero, append_nil]

theorem descending2subproc_result (s : SessionChannel) :
    wp descending2subproc
      (fun _ s' => ∃ m, m.length ≤ bufferMaxChunk ∧ Passed m s s')
      (fun _ s' => WithinDescending s s') s := by
  rw [descending2subproc, wp_read, wp_ite]
  refine ⟨fun hpart => ?_, fun hwhole => ?_⟩
  · have hpart' : isCompletePacketInDescending s.base.descending = false := by simpa using hpart
    refine wp_mono (putFromChannel_result s []) (fun _ s1 h1 => ⟨[], h1.2.1, h1.1, ?_, ?_⟩)
      fun _ s1 h1 => ?_
    · rw [hpart', if_neg Bool.false_ne_true]
      exact ⟨rfl, by rw [h1.2.2]⟩
    · rw [h1.2.2]
    · obtain ⟨hdescending, rest, hrest, hqueue⟩ := h1
      exact .of_header [] rest (by rw [hdescending, nil_append]) hrest hqueue
  · have hcomplete : isCompletePacketInDescending s.base.descending = true := by simpa using hwhole
    have hfive := ((isComplete_iff _).mp hcomplete).1
    have hfield := msgLen_field (b := s.base.descending) (by omega)
    rw [wp_bind, onBase, wp_zoom, onDescending, wp_zoom]
    refine wp_mono (getInt_spec _) (fun len b1 hb1 => ?_) fun _ _ hshort => ?_
    · obtain ⟨-, hlen, hb1⟩ := hb1
      have hlen' : len = msgLen s.base.descending := hlen
      subst hlen'
      rw [← hb1] at hfield
      rw [wp_read, wp_bind]
      refine wp_mono (putFromChannel_result _ _) (fun _ s2 h2 => ?_) fun _ s2 h2 => ?_
      · obtain ⟨hput, hchunk, hs2⟩ := h2
        rw [bytesFrom_length] at hchunk
        rw [wp_bind, wp_onBase_modify, creditHeader_eq, onBase, wp_zoom, onDescending, wp_zoom]
        have hdescending : s2.base.descending = b1 := by rw [hs2]
        refine wp_mono (consume_spec _ _) (fun _ b2 hb2 => ?_) fun _ b2 hb2 => ?_
        · -- the message was there, or it could not have been consumed
          rw [hdescending] at hb2
          obtain ⟨hin, hb2⟩ := hb2
          have hbytes := bytesFrom_eq hin
          have hmlen : (b1.contents.take (msgLen s.base.descending).toNat).length =
              (msgLen s.base.descending).toNat := by
            rw [length_take, contents_length]
            exact min_eq_left hin
          refine ⟨b1.contents.take (msgLen s.base.descending).toNat, ?_, ?_, ?_, ?_⟩
          · rw [hmlen]
            exact hchunk
          · simp only [hbytes] at hput
            exact hput
          · rw [if_pos hcomplete]
            show s.base.descending.contents = putString _ ++ b2.contents
            rw [putString, hmlen, UInt32.ofNat_toNat, hb2, append_assoc,
              take_append_drop]
            exact hfield
          · rw [hs2]
        · -- a length that wraps is more than a chunk, so the put would have failed
          rw [hdescending] at hb2
          have hsum := ((isComplete_iff _).mp hcomplete).2
          have hb1len : b1.len = s.base.descending.len - 4 := by
            rw [← contents_length, hb1, length_drop, contents_length]
          simp only [bufferMaxChunk] at hchunk
          omega
      · obtain ⟨hdescending, rest, hrest, hqueue⟩ := h2
        refine .of_header (putU32 (msgLen s.base.descending)) rest ?_ hrest hqueue
        rw [hdescending]
        exact hfield
    · have hfour := hshort.2
      omega

/-- A whole message of at most a chunk is passed on, if there is room for it. -/
theorem descending2subproc_fits (h : isCompletePacketInDescending s.base.descending = true →
    4 + (msgLen s.base.descending).toNat ≤ s.base.descending.len ∧
      (msgLen s.base.descending).toNat ≤ bufferMaxChunk ∧
      s.fromChannel.writeBuf.len + 4 ≤ 6 * bufferMaxChunk) : wp descending2subproc any never s := by
  rw [descending2subproc, wp_read, wp_ite]
  refine ⟨fun _ => ?_, fun hwhole => ?_⟩
  · exact wp_mono_total (putFromChannel_fits (zero_le _) (.inl rfl)) fun _ _ _ => trivial
  · obtain ⟨hin, hchunk, hroom⟩ := h (by simpa using hwhole)
    rw [wp_bind, onBase, wp_zoom, onDescending, wp_zoom]
    refine wp_mono (getInt_spec _) (fun len b1 hb1 => ?_) fun _ _ hshort => ?_
    · obtain ⟨-, hlen, hb1⟩ := hb1
      have hlen' : len = msgLen s.base.descending := hlen
      subst hlen'
      rw [wp_read]
      refine wp_seq_total (putFromChannel_fits ?_ (.inr hroom)) fun _ s2 h2 => ?_
      · rw [bytesFrom_length]
        exact hchunk
      have hdescending : s2.base.descending = b1 := h2
      rw [wp_bind, wp_onBase_modify, creditHeader_eq, onBase, wp_zoom, onDescending, wp_zoom]
      refine wp_mono (consume_spec _ _) (fun _ _ _ => trivial) fun _ _ hless => ?_
      have hb1len : b1.len = s.base.descending.len - 4 := by
        rw [← contents_length, hb1, length_drop, contents_length]
      have hless' := hless.2
      rw [hdescending] at hless'
      omega
    · have hfour := hshort.2
      omega

/-- **The guard of the reassembly**: its answer is right exactly when there are fewer than five
bytes or the length field is not one of the four greatest. In any case nothing behind the end of
`descending` is read or consumed. -/
theorem reassembly_guard (s : SessionChannel) :
    ((isCompletePacketInDescending s.base.descending = true ↔
        5 ≤ s.base.descending.len ∧
          4 + (msgLen s.base.descending).toNat ≤ s.base.descending.len) ∧
      wp descending2subproc (fun _ => WithinDescending s) (fun _ => WithinDescending s) s) ↔
      s.base.descending.len < 5 ∨ (msgLen s.base.descending).toNat + 4 < 2 ^ 32 := by
  rw [← isComplete_right_iff]
  refine and_iff_left (wp_imp (descending2subproc_result s) fun _ s' h => ?_)
  obtain ⟨m, -, hpassed⟩ := h
  exact hpassed.within

/-- A length field of 4294967292 and one byte -/
def wrapped : Buffer where
  bytes := [0xff, 0xff, 0xff, 0xfc, 0]
  offset := 0
  alloc := 4096
  offset_le := by decide
  lt_alloc := by decide
  alloc_le := Buffer.init.alloc_le

/-- Five bytes are taken for a message of 4 GB. -/
theorem wrapped_taken_for_message :
    isCompletePacketInDescending wrapped = true ∧
      ¬(5 ≤ wrapped.len ∧ 4 + (msgLen wrapped).toNat ≤ wrapped.len) := by
  decide

end SFTPChannel

end Shiesh.Channels
