import Shiesh.Channels.Model

/-!
# Messages of a Channel

What a message that a channel sends looks like on the wire, for every message at once: the
number of the peer's channel, and what the body has put behind it.
-/

namespace Shiesh.Channels

open Shiesh.Lib Buffer Channel List

/-- `body` adds `p` to the message under construction, and sends nothing. -/
def Appends (body : ConM Unit) (p : Bytes) : Prop :=
  ∀ s : Con, wp body
    (fun _ s' => s'.outgoingPacket.contents = s.outgoingPacket.contents ++ p ∧ s'.sent = s.sent)
    (fun _ s' => s'.sent = s.sent) s

namespace Appends

theorem pure : Appends (Pure.pure ()) [] := by
  intro s
  rw [wp_pure, append_nil]
  exact ⟨rfl, rfl⟩

theorem bind {m n : ConM Unit} {p q : Bytes} (hm : Appends m p) (hn : Appends n q) :
    Appends (do m; n) (p ++ q) := by
  intro s
  refine wp_seq (hm s) fun _ s1 h1 => ?_
  refine wp_mono (hn s1) (fun _ s2 h2 => ?_) fun _ _ h => h.trans h1.2
  exact ⟨by rw [h2.1, h1.1, append_assoc], h2.2.trans h1.2⟩

theorem onOutgoing {m : BufferM Unit} {p : Bytes}
    (hm : ∀ b, wp m (fun _ b' => b'.contents = b.contents ++ p) any b) :
    Appends (onOutgoing m) p := by
  intro s
  rw [Channels.onOutgoing, wp_zoom]
  exact wp_mono (hm s.outgoingPacket) (fun _ _ h => ⟨h, rfl⟩) fun _ _ _ => rfl

theorem putInt (v : UInt32) : Appends (packetPutInt v) (putU32 v) :=
  onOutgoing fun b => wp_weaken (append_spec _ b) fun _ _ h => h

theorem putChar (v : UInt8) : Appends (packetPutChar v) [v] :=
  onOutgoing fun b => wp_weaken (append_spec _ b) fun _ _ h => h

theorem putString (d : Bytes) : Appends (packetPutString d) (Shiesh.putString d) :=
  onOutgoing (putString_spec d)

theorem putCstring (str : String) :
    Appends (packetPutCstring str) (Shiesh.putCstring (ascii str)) :=
  onOutgoing (putString_spec _)

end Appends

theorem packetStart_spec (type : UInt8) (s : Con) :
    wp (packetStart type)
      (fun _ s' => s'.outgoingPacket.contents = [0, 0, 0, 0, 0, type] ∧ s'.sent = s.sent)
      (fun _ s' => s'.sent = s.sent) s := by
  rw [packetStart, onOutgoing, wp_zoom, wp_update]
  refine wp_mono (append_spec _ _) (fun _ b hb => ⟨?_, rfl⟩) fun _ _ _ => rfl
  rw [hb, contents_clear, nil_append]

variable {type : UInt8} {body : ConM Unit} {p : Bytes} {c : Channel} {Q : Unit → Channel → Prop}
  {E : Halt → Channel → Prop}

/-- **Messages.** A message is sent whole or not at all, and only the connection changes. -/
theorem message_spec (hbody : Appends body p)
    (hQ : ∀ s : Con, s.sent = c.con.sent ++ [⟨type, putU32 c.remoteId ++ p⟩] →
      Q () { c with con := s })
    (hE : ∀ e, ∀ s : Con, s.sent = c.con.sent → E e { c with con := s }) :
    wp (message type body) Q E c := by
  rw [message, wp_read, onCon, wp_zoom, wp_bind]
  refine wp_mono (packetStart_spec type c.con) ?_ fun e s h => hE e s h
  intro _ s1 h1
  rw [wp_bind]
  refine wp_mono (Appends.putInt c.remoteId s1) ?_ fun e s h => hE e s (h.trans h1.2)
  intro _ s2 h2
  rw [wp_bind]
  refine wp_mono (hbody s2) ?_ fun e s h => hE e s (h.trans (h2.2.trans h1.2))
  intro _ s3 h3
  rw [packetSend, wp_modify]
  refine hQ _ ?_
  have hcontents : s3.outgoingPacket.contents =
      [0, 0, 0, 0, 0, type] ++ (putU32 c.remoteId ++ p) := by
    rw [h3.1, h2.1, h1.1, append_assoc]
  simp only [hcontents, h3.2, h2.2, h1.2]
  rfl

/-! ## Messages that cannot fail

`outgoing_packet` starts empty, so there is always room for a message of one chunk. -/

/-- `body` adds `p` to the message under construction, if there is room for it. -/
def Fits (body : ConM Unit) (p : Bytes) : Prop :=
  ∀ s : Con, s.outgoingPacket.len + p.length ≤ bufferMaxChunk → wp body
    (fun _ s' => s'.outgoingPacket.contents = s.outgoingPacket.contents ++ p ∧ s'.sent = s.sent)
    (fun _ _ => False) s

namespace Fits

theorem pure : Fits (Pure.pure ()) [] := by
  intro s _
  rw [wp_pure, append_nil]
  exact ⟨rfl, rfl⟩

theorem bind {m n : ConM Unit} {p q : Bytes} (hm : Fits m p) (hn : Fits n q) :
    Fits (do m; n) (p ++ q) := by
  intro s hs
  rw [length_append] at hs
  refine wp_seq (hm s (by omega)) fun _ s1 h1 => ?_
  have hlen : s1.outgoingPacket.len = s.outgoingPacket.len + p.length := by
    rw [← contents_length, h1.1, length_append, contents_length]
  refine wp_imp (hn s1 (by omega)) fun _ s2 h2 => ?_
  exact ⟨by rw [h2.1, h1.1, append_assoc], h2.2.trans h1.2⟩

theorem append (p : Bytes) : Fits (onOutgoing (append p)) p := by
  intro s hs
  rw [onOutgoing, wp_zoom]
  exact wp_imp (append_fits (by omega) (by omega)) fun _ _ h => ⟨h, rfl⟩

theorem putInt (v : UInt32) : Fits (packetPutInt v) (putU32 v) := append _

theorem putChar (v : UInt8) : Fits (packetPutChar v) [v] := append _

theorem putString (d : Bytes) : Fits (packetPutString d) (Shiesh.putString d) := by
  have hstring := (append (putU32 (UInt32.ofNat d.length))).bind (append d)
  intro s hs
  have h := hstring s hs
  simp only [onOutgoing, packetPutString, Buffer.putString, Buffer.putInt, wp_bind, wp_zoom] at h ⊢
  exact h

theorem putCstring (str : String) : Fits (packetPutCstring str) (Shiesh.putCstring (ascii str)) :=
  putString _

end Fits

theorem message_fits (hbody : Fits body p) (hp : p.length + 10 ≤ bufferMaxChunk)
    (hQ : ∀ s : Con, s.sent = c.con.sent ++ [⟨type, putU32 c.remoteId ++ p⟩] →
      Q () { c with con := s }) :
    wp (message type body) Q E c := by
  have hstart : wp (packetStart type)
      (fun _ s => s.outgoingPacket.contents = [0, 0, 0, 0, 0, type] ∧ s.sent = c.con.sent)
      never c.con := by
    rw [packetStart, onOutgoing, wp_zoom, wp_update]
    refine wp_imp (append_fits (Nat.zero_le _) (by simp [bufferMaxChunk])) ?_
    intro _ b hb
    exact ⟨by rw [hb, contents_clear, nil_append], rfl⟩
  rw [message, wp_read, onCon, wp_zoom, wp_bind]
  refine wp_mono hstart ?_ fun _ _ h => h.elim
  intro _ s1 h1
  have hlen : s1.outgoingPacket.len = 6 := by
    rw [← contents_length, h1.1]
    rfl
  have hrest := (Fits.putInt c.remoteId).bind hbody s1 (by
    rw [hlen, length_append, putU32_length]
    omega)
  rw [wp_bind] at hrest ⊢
  refine wp_mono hrest ?_ fun _ _ h => h.elim
  intro _ s2 h2
  rw [wp_bind]
  refine wp_mono h2 ?_ fun _ _ h => h.elim
  intro _ s3 h3
  rw [packetSend, wp_modify]
  refine hQ _ ?_
  simp only [h3.1, h3.2, h1.1, h1.2]
  rfl

/-! ## WINDOW_ADJUST -/

section Credit

open SessionChannel (startSubsystem windowDefaultSize)

variable {s : SessionChannel} {E' : Halt → SessionChannel → Prop}

/-- The credit for what was consumed is given at once or not yet. -/
theorem wp_channelCheckWindow {R : Unit → SessionChannel → Prop}
    (hadjust : ∀ con : Con, con.sent = s.base.con.sent ++ [⟨Ssh2Msg.channelWindowAdjust,
        putU32 s.base.remoteId ++ putU32 s.base.localConsumed⟩] →
      R () { s with base := { s.base with
        con := con
        localWindow := s.base.localWindow + s.base.localConsumed
        localConsumed := 0 } })
    (hnot : R () s) : wp (onBase channelCheckWindow) R E' s := by
  rw [onBase, wp_zoom, channelCheckWindow, wp_read, wp_ite, wp_pure, wp_bind]
  refine ⟨fun _ => ?_, fun _ => hnot⟩
  refine message_fits (.putInt _) (by rw [putU32_length]; decide) fun con hcon => ?_
  rw [wp_modify]
  exact hadjust con hcon

/-- The subsystem is started, and the peer gets the window for it; or its thread is only created. -/
theorem wp_startSubsystem {start : Start} {R : Bool → SessionChannel → Prop}
    (hready : s.base.isOpened = false → s.subsystem = none → start = .notStarted →
      R false { s with subsystem := some { pc := .ready } })
    (hstart : s.base.isOpened = false → s.subsystem = none → ∀ con : Con,
      con.sent = s.base.con.sent ++ [⟨Ssh2Msg.channelWindowAdjust,
        putU32 s.base.remoteId ++ putU32 windowDefaultSize⟩] →
      R true { s with
        subsystem := some {}
        base := { s.base with
          con := con
          isOpened := true
          localWindow := windowDefaultSize
          localWindowMax := windowDefaultSize } })
    (hnot : ¬(s.base.isOpened = false ∧ s.subsystem = none ∧ start = .started) → R false s) :
    wp (startSubsystem start) R E' s := by
  unfold startSubsystem
  rw [wp_read, wp_ite, wp_pure]
  simp only [Bool.and_eq_true, Bool.not_eq_true', Option.isNone_iff_eq_none]
  refine ⟨fun hnew => ?_, fun hold => hnot fun h => hold ⟨h.1, h.2.1⟩⟩
  cases start with
  | started =>
    rw [wp_tryCatch, wp_update, wp_bind, onBase, wp_zoom, openWindow, wp_update]
    refine message_fits (.putInt _) (by decide) fun con hcon => ?_
    rw [wp_pure]
    exact hstart hnew.1 hnew.2 con hcon
  | notStarted =>
    rw [wp_update, wp_pure]
    exact hready hnew.1 hnew.2 rfl
  | notCreated | crashed => exact (wp_pure _).mpr (hnot fun h => by cases h.2.2)

end Credit

/-! ## DATA -/

/-- No more is sent at once than there is, and than the peer takes. -/
theorem sendable_le (c : Channel) :
    c.sendable.toNat ≤ c.ascending.len ∧ c.sendable.toNat ≤ c.remoteWindow.toNat ∧
      c.sendable.toNat ≤ c.remoteMaxpacket.toNat := by
  have hlen : (UInt32.ofNat c.ascending.len).toNat = c.ascending.len :=
    UInt32.toNat_ofNat_of_lt c.ascending.len_lt_size
  simp only [sendable]
  split <;> split <;> simp only [UInt32.lt_iff_toNat_lt, gt_iff_lt] at * <;> omega

end Shiesh.Channels
