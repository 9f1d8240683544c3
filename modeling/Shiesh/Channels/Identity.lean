import Shiesh.Channels.ServerRules
import Shiesh.Channels.LifeObjects

/-!
# The Identity of Channels

A channel leaves the repository when it is closed on both sides and CLOSE has gone both ways, and
not before; only then its number is free for another channel.

The peer may send messages for a channel until it has sent CLOSE. So a message that arrives for a
number is for the channel that has the number.

## Main result

- `channel_identity`: this holds at the end of every run, also of one that is ended by an error
-/

namespace Shiesh.Channels

open Shiesh.Lib List ChannelObject Repository

/-! ## §1 The end of a life -/

namespace Life

/-- Closed on both sides, and CLOSE has gone both ways -/
def Ends (l : Life) : Prop :=
  l.input = .closed ∧ l.output = .closed ∧ l.closeSent = true ∧ l.closeRcvd = true

variable {l l' : Life}

/-- `garbage_collect` deletes nothing else. -/
theorem collect_ends (hlive : l.deleted = false) (h : l.collect.deleted = true) :
    l.collect.Ends := by
  obtain ⟨hdead, hrcvd⟩ := collect_deleted hlive h
  obtain ⟨hinput, houtput, hsame, -⟩ := l.sayClose_same true
  rw [collect_deletes hdead hrcvd]
  exact ⟨hinput.trans hdead.1, houtput.trans hdead.2,
    (l.sayClose_closeSent true).trans (Bool.or_true _), hsame.trans hrcvd⟩

theorem confirm_same (l : Life) (p : Packet) :
    (l.confirm p).deleted = l.deleted ∧ ((l.confirm p).Ends ↔ l.Ends) := by
  rw [confirm]
  split <;> exact ⟨rfl, .rfl⟩

/-- **A channel is deleted at the end of its life.** -/
theorem Step.ends {event : ChannelObject.Event} (hstep : Step event l l')
    (hlive : l.deleted = false) (h : l'.deleted = true) : l'.Ends := by
  have hnot : l'.deleted = l.deleted → l'.Ends := fun hsame => by
    cases (hsame.trans hlive).symm.trans h
  rcases hstep.shape with hmoves | ⟨l₁, hmoves, -, -, hcollect⟩ | ⟨-, -, rfl⟩
  · exact hnot hmoves.deleted
  · have hlive₁ : l₁.deleted = false := hmoves.deleted.trans hlive
    rcases hcollect with ⟨-, rfl⟩ | ⟨p, -, -, rfl⟩
    · exact collect_ends hlive₁ h
    · obtain ⟨hsame, hends⟩ := confirm_same l₁.collect p
      exact hends.mpr (collect_ends hlive₁ (hsame.symm.trans h))
  · exact hnot rfl

end Life

/-! ## §2 All channels -/

/-- The channel may leave the repository: nothing legal can arrive for it any more. -/
def Entry.Finished (e : Entry) : Prop :=
  e.object.session.base.currentInputState = .closed ∧
    e.object.session.base.currentOutputState = .closed ∧
    e.object.session.base.closeSent = true ∧ e.object.session.base.closeRcvd = true

namespace Server

/-- Every channel ever created is in the repository under its number, or it was removed, once,
when it was finished. -/
structure Identified (s : Server) : Prop where
  number : ∀ id e, s.channels.getObjectById id = some e →
    e.number = id ∧ e.birth < s.created ∧ e.object.session.deleted = false
  distinct : ∀ id id' e e', s.channels.getObjectById id = some e →
    s.channels.getObjectById id' = some e' → e.birth = e'.birth → id = id'
  finished : ∀ e ∈ s.removed, e.Finished ∧ e.birth < s.created
  once : (s.removed.map Entry.birth).Nodup
  apart : ∀ id e, s.channels.getObjectById id = some e → e.birth ∉ s.removed.map Entry.birth
  older : ∀ id e, s.channels.getObjectById id = some e →
    ∀ e' ∈ s.removed, e'.number = id → e'.birth < e.birth
  all : ∀ birth < s.created, (∃ id e, s.channels.getObjectById id = some e ∧ e.birth = birth) ∨
    birth ∈ s.removed.map Entry.birth

/-- The same, with objects on which functions can be called -/
def Sane (s : Server) : Prop :=
  s.Identified ∧ ∀ id e, s.channels.getObjectById id = some e → e.object.Sound

variable {s : Server}

theorem sane_loopFree : LoopFree Sane := by
  intro s _ _ _ _ hs
  exact ⟨⟨hs.1.number, hs.1.distinct, hs.1.finished, hs.1.once, hs.1.apart, hs.1.older, hs.1.all⟩,
    hs.2⟩

/-- A channel is put back; it is finished if it was deleted. -/
theorem Identified.update (hs : s.Identified) {id : Nat} {e : Entry}
    (he : s.channels.getObjectById id = some e) {o : ChannelObject}
    (ho : o.session.deleted = true → (e.after o).Finished) : (s.update id e o).Identified := by
  obtain ⟨hnumber, hbirth, -⟩ := hs.number id e he
  -- every channel that is there now was there before with the same birth
  have hbefore : ∀ id' e', (s.update id e o).channels.getObjectById id' = some e' →
      ∃ e'', s.channels.getObjectById id' = some e'' ∧ e'.birth = e''.birth ∧
        e'.number = e''.number ∧ e'.object.session.deleted = false := by
    intro id' e' h'
    rcases getObjectById_update_cases he h' with ⟨rfl, hlive, rfl⟩ | ⟨-, h'⟩
    · exact ⟨e, he, rfl, rfl, hlive⟩
    · exact ⟨e', h', rfl, rfl, (hs.number id' e' h').2.2⟩
  refine ⟨fun id' e' h' => ?_, fun id1 id2 e1 e2 h1 h2 heq => ?_, ?_, ?_, ?_, ?_, ?_⟩
  · obtain ⟨e'', hget, hb, hn, hlive⟩ := hbefore id' e' h'
    rw [created_update, hb, hn]
    exact ⟨(hs.number id' e'' hget).1, (hs.number id' e'' hget).2.1, hlive⟩
  · obtain ⟨e1', hget1, hb1, -⟩ := hbefore id1 e1 h1
    obtain ⟨e2', hget2, hb2, -⟩ := hbefore id2 e2 h2
    exact hs.distinct id1 id2 e1' e2' hget1 hget2 (hb1.symm.trans (heq.trans hb2))
  · intro e' h'
    rw [created_update]
    rcases mem_removed_update h' with h' | ⟨rfl, hdeleted⟩
    · exact hs.finished e' h'
    · exact ⟨ho hdeleted, hbirth⟩
  · rw [removed_update]
    split
    case isTrue =>
      rw [map_append, nodup_append]
      refine ⟨hs.once, pairwise_singleton _ _, ?_⟩
      intro b hb b' hb' heq
      rw [heq, mem_singleton.mp hb'] at hb
      exact hs.apart id e he hb
    case isFalse => exact hs.once
  · intro id' e' h'
    obtain ⟨e'', hget, hb, -⟩ := hbefore id' e' h'
    rw [hb, removed_update]
    split
    case isTrue hdeleted =>
      rw [map_append, mem_append, not_or]
      refine ⟨hs.apart id' e'' hget, fun hlast => ?_⟩
      -- its own place is empty now
      have heq : id' = id := hs.distinct id' id e'' e hget he (mem_singleton.mp hlast)
      rw [getObjectById_update he, if_pos heq, if_pos hdeleted] at h'
      cases h'
    case isFalse => exact hs.apart id' e'' hget
  · intro id' e' h' e1 h1 hnum
    obtain ⟨e'', hget, hb, -⟩ := hbefore id' e' h'
    rw [hb]
    rcases mem_removed_update h1 with h1 | ⟨rfl, hdeleted⟩
    · exact hs.older id' e'' hget e1 h1 hnum
    · -- its own place is empty now
      rw [getObjectById_update he, if_pos (hnum.symm.trans hnumber), if_pos hdeleted] at h'
      cases h'
  · intro birth hlt
    rw [created_update] at hlt
    rw [removed_update]
    rcases hs.all birth hlt with ⟨id', e', h', hb⟩ | hgone
    · by_cases heq : id' = id
      · rw [heq, he] at h'
        cases h'
        split
        case isTrue =>
          refine .inr ?_
          rw [map_append, mem_append]
          exact .inr (mem_singleton.mpr hb.symm)
        case isFalse hlive =>
          refine .inl ⟨id, e.after o, ?_, hb⟩
          rw [getObjectById_update he, if_pos rfl, if_neg hlive]
      · refine .inl ⟨id', e', ?_, hb⟩
        rw [getObjectById_update he, if_neg heq]
        exact h'
    · refine .inr ?_
      split
      case isTrue =>
        rw [map_append, mem_append]
        exact .inl hgone
      case isFalse => exact hgone

theorem onObject_sane (id : Nat) (event : ChannelObject.Event) :
    Keeps Sane (onObject id (ChannelObject.step event)) Identified := by
  intro s hs
  refine wp_onObject (fun _ => hs) fun e he => ?_
  have hlive := (hs.1.number id e he).2.2
  refine wp_mono (ChannelObject.step_lives (hs.2 id e he) event) (fun _ o ho => ?_)
    fun _ o ho => hs.1.update he fun hdeleted => ?_
  · rw [hlive, if_neg (by decide)] at ho
    refine ⟨hs.1.update he fun hdeleted => ho.2.ends hlive hdeleted, fun id' e' h' => ?_⟩
    rcases getObjectById_update_cases he h' with ⟨-, -, rfl⟩ | ⟨-, h'⟩
    · exact ho.1
    · exact hs.2 id' e' h'
  · cases hlive.symm.trans (ho.deleted.symm.trans hdeleted)

/-- A channel is created under a number that is free. -/
theorem Identified.create (hs : s.Identified) (e : Entry)
    (hnumber : e.number = s.channels.firstUnusedObjectId) (hbirth : e.birth = s.created)
    (hlive : e.object.session.deleted = false) :
    ({ s with channels := s.channels.createObject e, created := s.created + 1 } :
      Server).Identified := by
  have hget := s.channels.getObjectById_createObject e
  have hold : ∀ id' e', (s.channels.createObject e).getObjectById id' = some e' →
      (id' = s.channels.firstUnusedObjectId ∧ e' = e) ∨
        s.channels.getObjectById id' = some e' := by
    intro id' e' h'
    rw [hget] at h'
    split at h'
    case isTrue heq => exact .inl ⟨heq, (Option.some.inj h').symm⟩
    case isFalse => exact .inr h'
  refine ⟨fun id' e' h' => ?_, fun id1 id2 e1 e2 h1 h2 heq => ?_, fun e' h' => ?_, hs.once,
    fun id' e' h' => ?_, fun id' e' h' e1 h1 hnum => ?_, fun birth hlt => ?_⟩
  · rcases hold id' e' h' with ⟨rfl, rfl⟩ | h'
    · exact ⟨hnumber, by rw [hbirth]; exact Nat.lt_succ_self _, hlive⟩
    · obtain ⟨hn, hb, hl⟩ := hs.number id' e' h'
      exact ⟨hn, Nat.lt_succ_of_lt hb, hl⟩
  · rcases hold id1 e1 h1 with ⟨hid1, he1⟩ | hold1 <;>
      rcases hold id2 e2 h2 with ⟨hid2, he2⟩ | hold2
    · rw [hid1, hid2]
    · exact absurd (hs.number id2 e2 hold2).2.1 (by rw [← heq, he1, hbirth]; exact lt_irrefl _)
    · exact absurd (hs.number id1 e1 hold1).2.1 (by rw [heq, he2, hbirth]; exact lt_irrefl _)
    · exact hs.distinct id1 id2 e1 e2 hold1 hold2 heq
  · exact ⟨(hs.finished e' h').1, Nat.lt_succ_of_lt (hs.finished e' h').2⟩
  · rcases hold id' e' h' with ⟨-, rfl⟩ | h'
    · intro hmem
      obtain ⟨e'', h'', heq⟩ := mem_map.mp hmem
      have hlt := (hs.finished e'' h'').2
      rw [heq, hbirth] at hlt
      exact lt_irrefl _ hlt
    · exact hs.apart id' e' h'
  · rcases hold id' e' h' with ⟨-, rfl⟩ | h'
    · rw [hbirth]
      exact (hs.finished e1 h1).2
    · exact hs.older id' e' h' e1 h1 hnum
  · rcases Nat.lt_succ_iff_lt_or_eq.mp hlt with hlt | heq
    · refine (hs.all birth hlt).imp_left fun hlive => ?_
      obtain ⟨id', e', h', hb⟩ := hlive
      refine ⟨id', e', ?_, hb⟩
      have hne : id' ≠ s.channels.firstUnusedObjectId := fun heq => by
        rw [heq, s.channels.getObjectById_firstUnused] at h'
        cases h'
      rw [hget, if_neg hne]
      exact h'
    · exact .inl ⟨s.channels.firstUnusedObjectId, e, by rw [hget, if_pos rfl],
        hbirth.trans heq.symm⟩

theorem serverInputChannelOpen_sane (ctype : Option ChannelType)
    (remoteId rwindow rmaxpack : UInt32) (resolves bug : Bool) :
    Keeps Sane (serverInputChannelOpen ctype remoteId rwindow rmaxpack resolves bug)
      Identified := by
  intro s hs
  cases ctype with
  | none =>
    rw [serverInputChannelOpen, openFailure, wp_zoom]
    have hcon : ∀ c, Sane { s with con := c } := fun _ =>
      ⟨⟨hs.1.number, hs.1.distinct, hs.1.finished, hs.1.once, hs.1.apart, hs.1.older, hs.1.all⟩,
        hs.2⟩
    exact wp_intro (fun _ c _ => hcon c) fun _ c _ => (hcon c).1
  | some ctype =>
    rw [serverInputChannelOpen, wp_ite, wp_throw, wp_read, wp_write]
    refine ⟨fun _ => hs.1, fun _ => ?_⟩
    have hsound := createDerivation_sound ctype
      (UInt32.ofNat s.channels.firstUnusedObjectId) remoteId rwindow rmaxpack
    have hnew : (createDerivation ctype
        (UInt32.ofNat s.channels.firstUnusedObjectId) remoteId rwindow
        rmaxpack).session.deleted = false := by
      cases ctype <;> rfl
    have hget := fun e => s.channels.getObjectById_createObject e
    have he := fun e => (hget e _).trans (if_pos rfl)
    refine wp_onObject_some (he _) ?_
    refine wp_mono_total (confirmOpen_sound (E := fun _ _ => False) hsound hnew) fun _ o ho => ?_
    refine ⟨(hs.1.create _ rfl rfl hnew).update (he _) fun hdeleted => ?_, fun id' e' h' => ?_⟩
    · cases ho.2.symm.trans hdeleted
    · rcases getObjectById_update_cases (he _) h' with ⟨-, -, rfl⟩ | ⟨hne, h'⟩
      · exact ho.1
      · rw [hget, if_neg hne] at h'
        exact hs.2 id' e' h'

theorem signal_sane (id : Nat) : Keeps Sane (signal id) Identified := by
  intro s hs
  refine wp_signal hs fun e channels hget _ hassign => ?_
  -- the channel is the same for all that matters
  have hold : ∀ id' e', channels.getObjectById id' = some e' →
      ∃ e'', s.channels.getObjectById id' = some e'' ∧ e'.birth = e''.birth ∧
        e'.number = e''.number ∧ e'.object = e''.object := by
    intro id' e' h'
    rw [hassign] at h'
    split at h'
    case isTrue heq =>
      cases h'
      exact ⟨e, heq ▸ hget, rfl, rfl, rfl⟩
    case isFalse => exact ⟨e', h', rfl, rfl, rfl⟩
  refine ⟨⟨fun id' e' h' => ?_, fun id1 id2 e1 e2 h1 h2 heq => ?_, hs.1.finished, hs.1.once,
    fun id' e' h' => ?_, fun id' e' h' e1 h1 hnum => ?_, fun birth hlt => ?_⟩, fun id' e' h' => ?_⟩
  · obtain ⟨e'', h'', hb, hn, ho⟩ := hold id' e' h'
    rw [hb, hn, ho]
    exact hs.1.number id' e'' h''
  · obtain ⟨e1', h1', hb1, -⟩ := hold id1 e1 h1
    obtain ⟨e2', h2', hb2, -⟩ := hold id2 e2 h2
    exact hs.1.distinct id1 id2 e1' e2' h1' h2' (hb1.symm.trans (heq.trans hb2))
  · obtain ⟨e'', h'', hb, -⟩ := hold id' e' h'
    rw [hb]
    exact hs.1.apart id' e'' h''
  · obtain ⟨e'', h'', hb, -⟩ := hold id' e' h'
    rw [hb]
    exact hs.1.older id' e'' h'' e1 h1 hnum
  · refine (hs.1.all birth hlt).imp_left fun hlive => ?_
    obtain ⟨id', e', h', hb⟩ := hlive
    by_cases heq : id' = id
    · rw [heq, hget] at h'
      cases h'
      exact ⟨id, { e with signalled := true }, (hassign id).trans (if_pos rfl), hb⟩
    · exact ⟨id', e', (hassign id').trans ((if_neg heq).trans h'), hb⟩
  · obtain ⟨e'', h'', -, -, ho⟩ := hold id' e' h'
    rw [ho]
    exact hs.2 id' e'' h''

theorem init_sane : Sane {} := by
  have hnone : ∀ id (e : Entry) (P : Prop),
      (.empty : Repository Entry).getObjectById id = some e → P := by
    intro id e P h
    cases (getObjectById_empty id).symm.trans h
  refine ⟨⟨fun id e h => hnone id e _ h, fun id _ e _ h => hnone id e _ h, ?_, .nil,
    fun id e h => hnone id e _ h, fun id e h => hnone id e _ h, ?_⟩, fun id e h => hnone id e _ h⟩
  · intro e h
    cases h
  · intro birth h
    cases h

/-- Of two channels with one number, the older one has been removed. -/
theorem Identified.older_removed (hs : s.Identified) {e e' : Entry} (he : e ∈ s.everyone)
    (he' : e' ∈ s.everyone) (hnumber : e.number = e'.number) (hbirth : e.birth < e'.birth) :
    e ∈ s.removed := by
  rcases mem_everyone he with ⟨id, hid⟩ | hgone
  · have hn := (hs.number id e hid).1
    rcases mem_everyone he' with ⟨id', hid'⟩ | hgone'
    · have hn' := (hs.number id' e' hid').1
      have heq : id = id' := by rw [← hn, ← hn', hnumber]
      rw [heq, hid'] at hid
      cases hid
      exact absurd hbirth (lt_irrefl _)
    · have hlt := hs.older id e hid e' hgone' (by rw [← hnumber, hn])
      exact absurd (lt_trans hbirth hlt) (lt_irrefl _)
  · exact hgone

/-- No channel gets lost. -/
theorem Identified.everyone_all (hs : s.Identified) :
    ∀ birth < s.created, ∃ e ∈ s.everyone, e.birth = birth := by
  intro birth hlt
  rcases hs.all birth hlt with ⟨id, e, h, hb⟩ | hgone
  · exact ⟨e, mem_append_left _ (mem_toList.mpr ⟨id, h⟩), hb⟩
  · obtain ⟨e, h, hb⟩ := mem_map.mp hgone
    exact ⟨e, mem_append_right _ h, hb⟩

/-- At the end of every run, also of one that is ended by an error -/
theorem run_identified (events : List Event) : (endState (runAll step events) {}).Identified := by
  have hstep : ∀ event, Keeps Sane (step event) Identified := fun event =>
    step_keeps sane_loopFree onObject_sane (fun _ h => h.1) signal_sane event
      fun _ _ _ _ _ _ _ => serverInputChannelOpen_sane _ _ _ _ _ _
  have hrun := Keeps.runAll hstep events _ init_sane
  exact wp_endState_both (wp_imp hrun fun _ _ h => h.1)

/-- **Channel identity.** However the connection goes on or ends: a channel is removed when both
halves are closed and CLOSE has been sent and received; no channel is removed twice; and of two
channels that were given the same number, the older one had been removed before, with the CLOSE of
the peer received. -/
theorem channel_identity (events : List Event) :
    let s := endState (runAll step events) {}
    (∀ e ∈ s.removed, e.Finished) ∧ (s.removed.map Entry.birth).Nodup ∧
      (∀ birth < s.created, ∃ e ∈ s.everyone, e.birth = birth) ∧
      ∀ e ∈ s.everyone, ∀ e' ∈ s.everyone, e.number = e'.number → e.birth < e'.birth →
        e ∈ s.removed ∧ e.object.session.base.closeRcvd = true := by
  intro s
  have hs : s.Identified := run_identified events
  refine ⟨fun e he => (hs.finished e he).1, hs.once, hs.everyone_all, ?_⟩
  intro e he e' he' hnumber hbirth
  have hgone := hs.older_removed he he' hnumber hbirth
  exact ⟨hgone, (hs.finished e hgone).1.2.2.2⟩

end Server

end Shiesh.Channels
