import Shiesh.Channels.Aside
import Shiesh.Channels.SftpCredit
import Shiesh.Channels.LifeObjects

/-!
# Credit as the Peer Sees It

What the peer has been granted can be read from the messages sent: the window in the
OPEN_CONFIRMATION and the numbers in all WINDOW_ADJUSTs. Most functions neither grant anything nor
touch the window, and what they do to `descending` is to take bytes from its front. These are the
frames; the functions that do more are in `Shiesh.Channels.InWindow`.
-/

namespace Shiesh.Channels

open Shiesh.Lib List Ssh2Msg

/-! ## §1 Credit in messages -/

theorem grantOf_adjust (remoteId n : UInt32) :
    grantOf ⟨channelWindowAdjust, putU32 remoteId ++ putU32 n⟩ = n.toNat := by
  have hlength := putU32_length remoteId
  have hother : ¬channelWindowAdjust = channelOpenConfirmation := by decide
  rw [grantOf, if_neg hother, if_pos rfl, drop_left' hlength,
    take_of_length_le (Nat.le_of_eq (putU32_length n)), getU32_putU32]

theorem grantOf_confirmation (remoteId self window maxpacket : UInt32) :
    grantOf ⟨channelOpenConfirmation,
      putU32 remoteId ++ (putU32 self ++ (putU32 window ++ putU32 maxpacket))⟩ = window.toNat := by
  have hlength : (putU32 remoteId ++ putU32 self).length = 8 := by
    rw [length_append, putU32_length, putU32_length]
  rw [grantOf, if_pos rfl, ← append_assoc, drop_left' hlength,
    take_left' (putU32_length window), getU32_putU32]

/-! ## §2 Frames -/

/-- No credit is granted, the window stays, `descending` only loses bytes from its front, and the
output half is not opened again. -/
structure Steady (c₀ c : Channel) : Prop where
  granted : granted c.con.sent = Channels.granted c₀.con.sent
  localWindow : c.localWindow = c₀.localWindow
  localWindowMax : c.localWindowMax = c₀.localWindowMax
  descending : c.descending.contents <:+ c₀.descending.contents
  accepting : c.currentOutputState = .open → c₀.currentOutputState = .open

namespace Steady

variable {c₀ c c' : Channel}

theorem refl (c : Channel) : Steady c c := ⟨rfl, rfl, rfl, suffix_refl _, id⟩

theorem trans (h : Steady c₀ c) (h' : Steady c c') : Steady c₀ c' :=
  ⟨h'.granted.trans h.granted, h'.localWindow.trans h.localWindow,
    h'.localWindowMax.trans h.localWindowMax, h'.descending.trans h.descending,
    fun hopen => h.accepting (h'.accepting hopen)⟩

end Steady

theorem Aside.steady {c₀ c : Channel} (h : Aside c₀ c) : Steady c₀ c where
  granted := congrArg Load.granted h.load
  localWindow := congrArg Load.localWindow h.load
  localWindowMax := congrArg Load.localWindowMax h.load
  descending := (congrArg (fun l => l.descending.contents) h.load) ▸ suffix_refl _
  accepting hopen := not_not.mp fun hnot => h.output hnot hopen

section Base

variable {c₀ : Channel} {α : Type}

theorem modify_steady {f : Channel → Channel} (hf : ∀ c, Steady c (f c)) :
    Keeps (Steady c₀) (modify f : ChannelM Unit) ⊤ :=
  .modify fun c h => h.trans (hf c)

theorem aside_steady {m : ChannelM α} (hm : ∀ c₀, Keeps (Aside c₀) m) :
    Keeps (Steady c₀) m ⊤ := fun c h =>
  wp_mono (hm c c (.refl c)) (fun _ _ hc => h.trans hc.steady) fun _ _ _ => trivial

theorem onAscending_steady (m : BufferM α) :
    Keeps (Steady c₀) (onAscending m) ⊤ := by
  intro c h
  rw [onAscending, wp_zoom]
  exact wp_intro (fun _ _ _ => h.trans ⟨rfl, rfl, rfl, suffix_refl _, id⟩) fun _ _ _ => trivial

theorem sendAscending_steady : Keeps (Steady c₀) Channel.sendAscending ⊤ := by
  refine Keeps.get.bind fun c => .ite (.ite ?_ (.pure _)) (.pure _)
  refine (aside_steady fun _ => message_aside (.putString _) (by decide)).bind fun _ =>
    (onAscending_steady _).bind fun _ => ?_
  exact modify_steady fun _ => ⟨rfl, rfl, rfl, suffix_refl _, id⟩

theorem channelOutputPoll_steady (hasAscendingData : Channel → Bool) :
    Keeps (Steady c₀) (Channel.channelOutputPoll hasAscendingData) ⊤ := by
  have hclosed : Keeps (Steady c₀)
      (modify fun c : Channel => { c with currentInputState := .closed } : ChannelM Unit)
      ⊤ := modify_steady fun _ => ⟨rfl, rfl, rfl, suffix_refl _, id⟩
  refine Keeps.get.bind fun c => .ite (.pure ()) ?_
  refine sendAscending_steady.bind fun _ => Keeps.get.bind fun c' => ?_
  exact .ite (.ite ((aside_steady fun _ => sendEOF_aside).bind fun _ => hclosed) hclosed)
    (.pure ())

theorem channelInputWindowAdjust_steady :
    Keeps (Steady c₀) Channel.channelInputWindowAdjust ⊤ := by
  refine (aside_steady fun _ => reading_aside _).bind fun _ =>
    (aside_steady fun _ => reading_aside _).bind fun _ => ?_
  exact modify_steady fun _ => ⟨rfl, rfl, rfl, suffix_refl _, id⟩

end Base

section Session

variable {c₀ : Channel}

/-- The same for sessions -/
def SteadyFrom (c₀ : Channel) (s : SessionChannel) : Prop := Steady c₀ s.base

theorem onBase_steady {m : ChannelM α} (hm : Keeps (Steady c₀) m ⊤) :
    Keeps (SteadyFrom c₀) (onBase m) ⊤ := by
  intro s hs
  rw [onBase, wp_zoom]
  exact hm s.base hs

theorem steady_frame : QueueFrame (SteadyFrom c₀) :=
  ⟨⟨fun h hc => h.trans hc.steady, fun _ _ h => h⟩, fun _ h => h⟩

/-- Code that does not touch the base class at all -/
theorem zoom_steady {α τ : Type} {view : SessionChannel → τ}
    {put : τ → SessionChannel → SessionChannel}
    (hput : ∀ t s, Steady s.base (put t s).base) (m : EStateM Halt τ α) :
    Keeps (SteadyFrom c₀) (zoom view put m) ⊤ := by
  intro s hs
  rw [wp_zoom]
  exact wp_intro (fun _ t _ => .trans hs (hput t s)) fun _ _ _ => trivial

theorem workerPut_steady (data : Bytes) :
    Keeps (SteadyFrom c₀) (SessionChannel.stepEvent (.workerPut data)) ⊤ := by
  refine workerAt_keeps _ fun w => ?_
  intro s hs
  rw [wp_tryCatch, wp_zoom]
  refine wp_intro (fun _ _ _ => hs) fun _ q _ => ?_
  exact (wp_modify _).mpr hs

/-! ### channel_post -/

theorem getAs_steady (sftp : Bool) : Keeps (SteadyFrom c₀) (getAs sftp) ⊤ := by
  refine .bind (zoom_steady ?_ _) fun _ => .pure ()
  exact fun _ _ => ⟨rfl, rfl, rfl, suffix_refl _, id⟩

/-- Bytes leave `descending` at its front. -/
theorem consume_steady (n : Nat) :
    Keeps (SteadyFrom c₀) (onBase (onDescending (Buffer.consume n))) ⊤ := by
  refine onBase_steady fun c h => ?_
  rw [onDescending, wp_zoom]
  refine wp_weaken (Buffer.consume_spec n _) fun _ b hb => ?_
  exact h.trans ⟨rfl, rfl, rfl, hb.2 ▸ drop_suffix _ _, id⟩

theorem sftpDescending2subproc_steady :
    Keeps (SteadyFrom c₀) SFTPChannel.descending2subproc ⊤ := by
  have hput : ∀ data, Keeps (SteadyFrom c₀) (SFTPChannel.putFromChannel data) ⊤ := by
    intro data
    refine zoom_steady ?_ _
    exact fun _ _ => ⟨rfl, rfl, rfl, suffix_refl _, id⟩
  have hint : Keeps (SteadyFrom c₀) (onBase (onDescending Buffer.getInt)) ⊤ := by
    refine onBase_steady fun c h => ?_
    rw [onDescending, wp_zoom]
    refine wp_weaken (Buffer.getInt_spec _) fun _ b hb => ?_
    exact h.trans ⟨rfl, rfl, rfl, hb.2.2 ▸ drop_suffix _ _, id⟩
  refine Keeps.get.bind fun s => .ite (hput []) (hint.bind fun len => Keeps.get.bind fun s1 => ?_)
  refine (hput _).bind fun _ => .bind (onBase_steady (modify_steady fun c => ?_)) fun _ =>
    consume_steady _
  split
  case isTrue => exact ⟨rfl, rfl, rfl, suffix_refl _, id⟩
  case isFalse => exact .refl c

theorem putAs_steady (sftp : Bool) : Keeps (SteadyFrom c₀) (putAs sftp) ⊤ := by
  cases sftp with
  | false =>
    refine Keeps.get.bind fun s => .bind (zoom_steady ?_ _) fun _ => consume_steady _
    exact fun _ _ => ⟨rfl, rfl, rfl, suffix_refl _, id⟩
  | true => exact sftpDescending2subproc_steady

end Session

end Shiesh.Channels
