import Shiesh.Sftp.Listing

/-!
# Requests Answered with a Status

Handlers which call the system and then send SSH2_FXP_STATUS. Between reading the request and
sending the reply such a handler does nothing but call Win32 functions, so that it is a function
of the system; and the status and the system it leaves behind are all there is to say about it.
-/

namespace Shiesh.Sftp

open Shiesh.Lib Shiesh.Channels

variable {ω α β : Type}

/-! ## §1 Calls -/

theorem call_ok (f : Api ω α) (s : SFTP ω) :
    call f s = .ok (f s.world).1.value (s.after (f s.world)) := rfl

/-- The state with another system and another last error -/
def SFTP.inWorld (s : SFTP ω) (w : ω) (err : UInt32) : SFTP ω :=
  { s with world := w, lastError := err }

/-- The program only calls the system, and `f` says what it returns and what becomes of the
system. -/
def Runs (m : SftpM ω α) (f : ω → α × ω) : Prop :=
  ∀ s, ∃ err, m s = .ok (f s.world).1 (s.inWorld (f s.world).2 err)

namespace Runs

variable {m : SftpM ω α} {k : α → SftpM ω β}

theorem pure (a : α) : Runs (Pure.pure a : SftpM ω α) fun w => (a, w) := fun s => ⟨s.lastError, rfl⟩

theorem congr {f g : ω → α × ω} (hm : Runs m f) (h : ∀ w, f w = g w) : Runs m g := by
  have hfg : f = g := funext h
  rw [← hfg]
  exact hm

theorem call (f : Api ω α) : Runs (call f) fun w => ((f w).1.value, (f w).2) := fun s =>
  ⟨(f s.world).1.lastError, rfl⟩

theorem bind {f : ω → α × ω} {g : α → ω → β × ω}
    (hm : Runs m f) (hk : ∀ a, Runs (k a) (g a)) : Runs (m >>= k) fun w => g (f w).1 (f w).2 := by
  intro s
  obtain ⟨err, hok⟩ := hm s
  rw [bind_of_ok hok]
  exact hk (f s.world).1 _

theorem ite {c : Prop} [Decidable c] {m n : SftpM ω α} {f g : ω → α × ω} (hm : c → Runs m f)
    (hn : ¬c → Runs n g) : Runs (if c then m else n) fun w => if c then f w else g w := by
  by_cases hc : c
  · simp only [if_pos hc]
    exact hm hc
  · simp only [if_neg hc]
    exact hn hc

/-- A program that looks at the last error of its first call -/
theorem call_bind {f : Api ω α} {g : ω → β × ω}
    (hk : ∀ s : SFTP ω, ∃ err, k (f s.world).1.value (s.after (f s.world)) =
      .ok (g s.world).1 (s.inWorld (g s.world).2 err)) : Runs (Sftp.call f >>= k) g := by
  intro s
  rw [bind_of_ok (call_ok f s)]
  exact hk s

/-- A call whose failure is the status -/
theorem checked {f : Api ω Bool} {m : SftpM ω UInt32} {g : ω → UInt32 × ω} (hm : Runs m g) :
    Runs (do if !(← Sftp.call f) then lastStatus else m) fun w =>
      if (f w).1.value then g (f w).2 else (errnoToPortable (f w).1.lastError, (f w).2) := by
  refine call_bind fun s => ?_
  cases hvalue : (f s.world).1.value with
  | true =>
    simp only [Bool.not_true, Bool.false_eq_true, if_false, if_true]
    exact hm (s.after (f s.world))
  | false => exact ⟨(f s.world).1.lastError, rfl⟩

theorem last (f : Api ω Bool) : Runs (do statusOf (← Sftp.call f)) fun w =>
    if (f w).1.value then (Fx.ok, (f w).2) else (errnoToPortable (f w).1.lastError, (f w).2) := by
  refine call_bind fun s => ?_
  cases (f s.world).1.value with
  | true => exact ⟨(f s.world).1.lastError, rfl⟩
  | false => exact ⟨(f s.world).1.lastError, rfl⟩

end Runs

/-! ## §2 The reply -/

/-- The request is answered with one message, a status, and `Q` holds of the status and the system
then. `E` is what is left to be said of the system when the message cannot be put into the queue. -/
def AnswersStatus (m : SftpM ω Unit) (id : UInt32) (Q : UInt32 → ω → Prop) (E : ω → Prop)
    (s : SFTP ω) : Prop :=
  wp m (fun _ s' => ∃ status, s'.toChannel.writeBuf.contents =
      s.toChannel.writeBuf.contents ++ putString (statusReply s.version id status) ∧
      Q status s'.world)
    (fun _ s' => E s'.world) s

/-- There is room for a reply. -/
def HasRoom (s : SFTP ω) : Prop := s.toChannel.writeBuf.len + 8 ≤ 6 * bufferMaxChunk

variable {id : UInt32} {s : SFTP ω} {Q : UInt32 → ω → Prop} {E : ω → Prop}

theorem HasRoom.withIqueue (hs : HasRoom s) (b : Bytes) : HasRoom (s.withIqueue b) := hs

theorem HasRoom.inWorld (hs : HasRoom s) (w : ω) (err : UInt32) : HasRoom (s.inWorld w err) := hs

/-- A status gets into the queue, unless there is no room. -/
theorem sendStatus_puts (id status : UInt32) (s : SFTP ω) :
    wp (sendStatus id status) (fun _ s' => s'.world = s.world ∧ s'.toChannel.writeBuf.contents =
        s.toChannel.writeBuf.contents ++ putString (statusReply s.version id status))
      (fun _ s' => s'.world = s.world ∧ ¬HasRoom s) s := by
  have hlen := status_length_le s.version id status
  have hchunk := le_trans hlen (show 64 ≤ bufferMaxChunk by decide)
  rw [sendStatus, wp_read]
  refine wp_sendMsg (fun part hpart => (part_length_le hpart).trans hchunk) (by omega) ?_
  by_cases hroom : HasRoom s
  · rw [HasRoom] at hroom
    exact wp_mono_total (Buffer.putString_fits (by omega) hchunk) fun _ b hb => ⟨rfl, hb⟩
  · exact wp_mono (Buffer.putString_spec _ _) (fun _ b hb => ⟨rfl, hb⟩) fun _ _ _ => ⟨rfl, hroom⟩

/-- What a handler reads first -/
theorem answersStatus_bind {k : α → SftpM ω Unit} {a : α} {s' : SFTP ω}
    (hm : m s = .ok a s') (hversion : s'.version = s.version)
    (hchannel : s'.toChannel = s.toChannel) :
    AnswersStatus (m >>= k) id Q E s ↔ AnswersStatus (k a) id Q E s' := by
  rw [AnswersStatus, AnswersStatus, wp_bind, wp_of_ok hm, hversion, hchannel]

variable {status : UInt32} {rest : Bytes}

theorem answersStatus_send (hQ : Q status s.world)
    (hE : ¬HasRoom s → E s.world) : AnswersStatus (sendStatus id status) id Q E s := by
  refine wp_mono (sendStatus_puts id status s)
    (fun _ s' hs' => ⟨status, hs'.2, ?_⟩) fun _ s' hs' => ?_
  · rw [hs'.1]
    exact hQ
  · rw [hs'.1]
    exact hE hs'.2

/-- What holds of some status holds also when the reply cannot be put. -/
theorem answersStatus_concludes (hQ : Q status s.world) :
    AnswersStatus (sendStatus id status) id Q (fun w => ∃ status, Q status w) s :=
  answersStatus_send hQ fun _ => ⟨status, hQ⟩

/-- A reply that can be put says what is so. -/
theorem answersStatus_send_iff (hroom : HasRoom s) :
    AnswersStatus (sendStatus id status) id Q (fun _ => False) s ↔ Q status s.world := by
  constructor
  · intro hanswers
    obtain ⟨_, s', -, ⟨status', hreply', hQ⟩, hworld, hreply⟩ :=
      ok_of_wp_total (wp_and_mono hanswers (sendStatus_puts id status s) fun _ _ h => h)
    rw [hreply] at hreply'
    have hstatus := statusReply_injective (putString_injective (List.append_cancel_left hreply'))
    rw [hstatus, ← hworld]
    exact hQ
  · exact fun hQ => answersStatus_send hQ fun hno => absurd hroom hno

theorem getInt_ok {v : UInt32} :
    getInt (s.withIqueue (putU32 v ++ rest)) = .ok v (s.withIqueue rest) := by
  have hread : wp getInt (fun x s' => x = v ∧ s' = s.withIqueue rest) never
      (s.withIqueue (putU32 v ++ rest)) := wp_getInt.mpr ⟨rfl, rfl⟩
  obtain ⟨_, _, hok, rfl, rfl⟩ := ok_of_wp_total hread
  exact hok

theorem getString_ok {b : Bytes} (hlen : b.length ≤ 256 * 1024) :
    getString (s.withIqueue (putString b ++ rest)) = .ok b (s.withIqueue rest) := by
  have hread : wp getString (fun x s' => x = b ∧ s' = s.withIqueue rest) never
      (s.withIqueue (putString b ++ rest)) := (wp_getString hlen).mpr ⟨rfl, rfl⟩
  obtain ⟨_, _, hok, rfl, rfl⟩ := ok_of_wp_total hread
  exact hok

theorem getAttrib_ok {body : Bytes} {a : Attrib} (ha : decodeAttrib body = .ok a rest) :
    getAttrib (s.withIqueue body) = .ok a (s.withIqueue rest) := by
  have hread : wp getAttrib (fun x s' => x = a ∧ s' = s.withIqueue rest) never
      (s.withIqueue body) := wp_onIqueue.mpr ((wp_of_ok ha).mpr ⟨rfl, rfl⟩)
  obtain ⟨_, _, hok, rfl, rfl⟩ := ok_of_wp_total hread
  exact hok

/-! ### Paths -/

/-- The name of a path in calls -/
def Path.systemName (p : Path) : WString :=
  longPrefix ++ if !p.isRelative && p.hasDriveLetter then
    [p.drive, L ':', L '\\'] ++ Path.joinDirs (L '\\') p.path
  else Path.joinDirs (L '\\') p.path

theorem getForCall_eq (p : SFTPFilePath) : p.getForCall true = .ok p.systemName := by
  rw [SFTPFilePath.getForCall, Path.toWString, Path.toStringGeneric, assertThat, assertThat,
    Bool.or_true, Bool.or_true, Path.systemName]
  by_cases hdrive : (!p.isRelative && p.hasDriveLetter) = true
  · simp only [if_pos hdrive]
    rfl
  · simp only [if_neg hdrive]
    rfl

variable {os : Win32 ω} {home path : SFTPFilePath}

theorem makePath_ok {name : Bytes} (hpath : createPath true home (fromUTF8 os name) = .ok path) :
    makePath os home name s = .ok path s := by
  rw [makePath, hpath]
  rfl

theorem forCall_ok : forCall path s = .ok path.systemName s := by
  rw [forCall, getForCall_eq]
  rfl

end Shiesh.Sftp
