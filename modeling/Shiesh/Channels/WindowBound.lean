import Shiesh.Channels.InWindow

/-!
# The Advertised Window

`local_window` does not exceed `local_window_max` as long as its counters do not wrap. DATA for an
output half that is not open is subtracted from the window without a test, so that a peer that
goes on sending after EOF or CLOSE makes the window wrap.
-/

namespace Shiesh.Channels

open Shiesh.Lib Ledger List UInt32

namespace SFTPChannel

variable {P : Ledger → Prop}

/-- `SFTPChannel::descending2subproc` keeps what forwarding a whole message keeps. -/
theorem descending2subproc_kept (hP : Ledger.StableFrugal P)
    (hforward : ∀ l n, P l → 4 + n ≤ l.buffered → P (forwarded n l)) :
    Keeps (KeptOpen P Larval) descending2subproc ⊤ := by
  intro s hs
  apply wp_mono (descending2subproc_effect hs.1.queue)
  · intro _ s' hs'
    obtain ⟨hqueue, hopened, hledger⟩ := hs'
    have hopen : s'.base.isOpened = true := hopened.trans hs.2
    have hcollected : P (collected (ledger s)) := hP (.collect _) (.refl _) hs.1.kept
    refine ⟨⟨hqueue, ?_, fun hnot => by cases hopen.symm.trans hnot⟩, hopen⟩
    split at hledger
    case isTrue =>
      obtain ⟨n, hn, hledger⟩ := hledger
      rw [hledger]
      exact hforward _ n hcollected hn
    case isFalse =>
      rw [hledger]
      exact hcollected
  · exact fun _ _ _ => trivial

theorem channelPost_kept (hP : Ledger.StableFrugal P)
    (hforward : ∀ l n, P l → 4 + n ≤ l.buffered → P (forwarded n l)) :
    Keeps (KeptBy P Larval) channelPost ⊤ :=
  post_kept (larval_frugal hP) true (descending2subproc_kept hP hforward)

/-- A length field is credited or lost, and the counters do not wrap either way. -/
theorem forwarded_within (l : Ledger) (n : Nat) (h : l.Within) (hn : 4 + n ≤ l.buffered) :
    (forwarded n l).Within := by
  have hmax := l.max.toNat_lt
  simp only [Ledger.Within, total, held, forwarded, withHeader] at h ⊢
  split
  case isTrue =>
    have hsum : (l.consumed + 4).toNat = l.consumed.toNat + 4 :=
      toNat_add_of_le l.max (by simp only [reduceToNat]; omega)
    rw [hsum]
    omega
  case isFalse => omega

end SFTPChannel

namespace ChannelObject

variable {o : ChannelObject}

/-- DATA for an output half that is not open is covered by the window. -/
def dataFits (event : Event) (o : ChannelObject) : Bool :=
  match event with
  | .session (.data body) =>
    o.session.deleted || !o.session.base.isOpened || o.session.base.currentOutputState = .open ||
      match packetGetStringPtr body with
      | .ok data _ => data.length ≤ o.session.base.localWindow.toNat
      | .error _ _ => true
  | _ => true

/-- **DATA.** What is not accepted any more is discarded within the window. -/
theorem data_within (ho : KeptObject Ledger.Within o) (body : Bytes)
    (hdeleted : o.session.deleted = false) (hfits : dataFits (.session (.data body)) o = true) :
    wp (stepEvent (.session (.data body))) (fun _ => KeptObject Ledger.Within) any
      o := by
  show wp (onSession (SessionChannel.stepEvent (.data body))) _ _ _
  rw [onSession, wp_zoom, SessionChannel.stepEvent, wp_bind, wp_received]
  have hR := unopened_frugal o.cls @Ledger.Step.within
  by_cases hopened : o.session.base.isOpened = true
  · refine channelInputData_spec hR (ho.sameCredit hR ⟨rfl, rfl, rfl, rfl, rfl, rfl⟩) ?_
    intro hout data rest hget
    have hlen : data.length ≤ o.session.base.localWindow.toNat := by
      simp only at hget hout
      simpa [dataFits, hdeleted, hopened, hout, hget] using hfits
    have hsmall : data.length < UInt32.size := lt_of_le_of_lt hlen (UInt32.toNat_lt _)
    have hle : UInt32.ofNat data.length ≤ o.session.base.localWindow :=
      (UInt32.ofNat_le_iff hsmall).mpr hlen
    exact ho.kept.discard (.inl (UInt32.sub_le hle))
  · rw [onBase, wp_zoom, Channel.channelInputData, wp_read]
    rw [if_pos (by simp [hopened]), wp_pure]
    exact ho.sameCredit hR ⟨rfl, rfl, rfl, rfl, rfl, rfl⟩

theorem post_within (ho : KeptObject Ledger.Within o) :
    wp channelPost (fun _ => KeptObject Ledger.Within) any o := by
  have hpost : wp (onSession SessionChannel.channelPost) (fun _ => KeptObject Ledger.Within)
      any o :=
    onSession_object ho (Shiesh.Channels.channelPost_kept
      (unopened_frugal o.cls @Ledger.Step.within))
  apply wp_channelPost
  · intro hcls
    cases hsftp : o.sftp with
    | false => exact hpost
    | true =>
      refine onSession_object ho fun s hs => ?_
      apply wp_mono (SFTPChannel.channelPost_kept @Ledger.Step.within
        SFTPChannel.forwarded_within s ((unopened_larval hcls).mp hs))
      · exact fun _ s' hs' => (unopened_larval hcls).mpr hs'
      · exact fun _ _ h => h
  · intro _
    refine wp_imp hpost fun _ o1 ho1 => ⟨fun _ => ?_, fun _ => ho1⟩
    rw [openConfirmation, wp_read]
    exact wp_imp (onSession_message @Ledger.Step.within ho1 _ _) fun _ o2 ho2 => ho2

theorem step_within (event : Event) (o : ChannelObject) (ho : KeptObject Ledger.Within o)
    (hfits : dataFits event o = true) :
    wp (step event) (fun _ => KeptObject Ledger.Within) (fun _ => fun _ => True) o := by
  rw [step, wp_read, wp_ite, wp_pure]
  refine ⟨fun _ => ho, fun hlive => ?_⟩
  by_cases hdata : ∃ body, event = .session (.data body)
  · obtain ⟨body, rfl⟩ := hdata
    exact data_within ho body (by simpa using hlive) hfits
  · by_cases hpost : event = .session .post
    · rw [hpost]
      exact post_within ho
    · exact stepEvent_object_frugal @Ledger.Step.within ho event hpost fun body h => hdata ⟨body, h⟩

theorem create_within (ctype : ChannelType) (self remoteId rwindow rmaxpack : UInt32) :
    KeptObject Ledger.Within (createDerivation ctype self remoteId rwindow rmaxpack) := by
  cases ctype with
  | session =>
    have hsession : ChannelClass.session ≠ .tcpClient := by decide
    exact (unopened_larval hsession).mpr (create_kept (within_blank true) ..)
  | directTcpip =>
    refine ⟨.init fun w hw => ?_, ?_, fun _ hcls => absurd rfl hcls⟩
    · cases hw
      rfl
    · exact (Ledger.Step.grant true SessionChannel.windowDefaultSize).within (.inr rfl)
        (within_blank true)

/-- **The advertised window** never exceeds its maximum in a run in which DATA for an output half
that is not open is covered by the window, and what may still be granted does not make it exceed
its maximum either. -/
theorem window_bounded (ctype : ChannelType) (self remoteId rwindow rmaxpack : UInt32)
    (events : List Event) (o : ChannelObject)
    (h : runAll step events (createDerivation ctype self remoteId rwindow rmaxpack) = .ok () o)
    (hfits : Meets step (fun event o => dataFits event o = true) events
      (createDerivation ctype self remoteId rwindow rmaxpack)) :
    o.session.base.localWindow ≤ o.session.base.localWindowMax ∧
      o.session.base.localWindow.toNat + o.session.base.localConsumed.toNat ≤
        o.session.base.localWindowMax.toNat := by
  have hrun := hfits.runAll (E := fun _ => True) step_within (create_within ..)
  rw [wp_of_ok h] at hrun
  have hwithin := hrun.kept
  simp only [Ledger.Within, total, ledger] at hwithin
  rw [le_iff_toNat_le]
  omega

-- data before and after EOF, all of it within the window
theorem window_bounded_eof :
    let events : List Event :=
      [.startSubsystem false true, .session (.data (putString [1, 2, 3])), .session (.eof []),
        .session (.data (putString [4, 5])), .session .post]
    let o := endState (runAll step events) (createDerivation .session 0 7 100 100)
    o.session.base.currentOutputState = .waitDrain ∧ o.session.base.localConsumed = 2 ∧
      o.session.base.localWindow ≤ o.session.base.localWindowMax := by
  intro events o
  exact ⟨by decide +kernel, by decide +kernel,
    (window_bounded .session 0 7 100 100 events o (ok_endState (by decide +kernel))
      (by decide +kernel)).1⟩

/-! ## Data behind the end -/

/-- The output half of an opened channel is not open any more. -/
structure Ended (windowMax : UInt32) (o : ChannelObject) : Prop where
  live : o.session.deleted = false
  opened : o.session.base.isOpened = true
  output : o.session.base.currentOutputState ≠ .open
  max : o.session.base.localWindowMax = windowMax

variable {windowMax : UInt32} {data : Bytes}

/-- DATA is subtracted from the window, whatever its length. -/
theorem data_ended (ho : Ended windowMax o) (hlen : data.length ≤ 256 * 1024) :
    wp (step (.session (.data (putString data))))
      (fun _ o' => Ended windowMax o' ∧
        o'.session.base.localWindow = o.session.base.localWindow - ofNat data.length)
      never o := by
  rw [step_session ho.live rfl, SessionChannel.stepEvent, wp_bind, wp_received, onBase, wp_zoom,
    Channel.channelInputData, wp_read, if_neg (by simp [ho.opened]), wp_bind, reading, onCon,
    wp_zoom, wp_zoom]
  have hbody : putString data = putString data ++ [] := (append_nil _).symm
  rw [hbody, wp_packetGetStringPtr hlen, if_pos ho.output, wp_modify]
  exact ⟨{ ho with }, rfl⟩

theorem data_ended_run (hlen : data.length ≤ 256 * 1024)
    (n : Nat) (o : ChannelObject) (ho : Ended windowMax o) :
    wp (runAll step (replicate n (.session (.data (putString data)))))
      (fun _ o' => Ended windowMax o' ∧ o'.session.base.localWindow =
        o.session.base.localWindow - ofNat n * ofNat data.length)
      never o := by
  induction n generalizing o with
  | zero =>
    rw [replicate_zero, runAll, wp_pure]
    exact ⟨ho, by simp⟩
  | succ n ih =>
    rw [replicate_succ, runAll]
    refine wp_seq (data_ended ho hlen) fun _ o1 ho1 => ?_
    refine wp_imp (ih o1 ho1.1) fun _ o2 ho2 => ?_
    refine ⟨ho2.1, ?_⟩
    rw [ho2.2, ho1.2, ofNat_add]
    grind

/-- After EOF the peer sends nine messages of 256K: the window of 2M wraps around. -/
theorem window_wraps :
    let events : List Event :=
      [.startSubsystem false true, .session (.eof [])] ++
        replicate 9 (.session (.data (putString (replicate 262144 0))))
    ∃ o, runAll step events (createDerivation .session 0 7 100 100) = .ok () o ∧
      o.session.base.localWindowMax = 2097152 ∧
      ¬ o.session.base.localWindow ≤ o.session.base.localWindowMax := by
  intro events
  have hstart : wp (runAll step [.startSubsystem false true, .session (.eof [])])
      (fun _ o => Ended 2097152 o ∧ o.session.base.localWindow = 2097152) never
      (createDerivation .session 0 7 100 100) := by
    rw [wp_of_ok (ok_endState (by decide +kernel))]
    exact ⟨⟨by decide +kernel, by decide +kernel, by decide +kernel, by decide +kernel⟩,
      by decide +kernel⟩
  have hrun : wp (runAll step events)
      (fun _ o => o.session.base.localWindowMax = 2097152 ∧
        o.session.base.localWindow = 2097152 - 9 * 262144) never
      (createDerivation .session 0 7 100 100) := by
    rw [wp_runAll_append]
    refine wp_imp hstart fun _ o1 ho1 => ?_
    have hlen : (replicate 262144 (0 : UInt8)).length = 262144 := length_replicate
    refine wp_imp (data_ended_run (by rw [hlen]) 9 o1 ho1.1) fun _ o2 ho2 => ?_
    refine ⟨ho2.1.max, ?_⟩
    rw [ho2.2, ho1.2, hlen]
    rfl
  obtain ⟨_, o, hok, hmax, hwindow⟩ := ok_of_wp_total hrun
  refine ⟨o, hok, hmax, ?_⟩
  rw [hmax, hwindow]
  decide

end ChannelObject

end Shiesh.Channels
