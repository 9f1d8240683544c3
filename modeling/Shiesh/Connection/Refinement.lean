import Shiesh.Auth.Replies
import Shiesh.Connection.Model
import Shiesh.Transport.History

/-!
# The Connection Thread Follows the Protocol

Every history of `Connection.run` is allowed by the protocol of `Kex.Exchange`, however
the run ends.
-/

namespace Shiesh.Connection

open Shiesh.Lib Shiesh.Transport Shiesh.Kex Shiesh.Auth List
open Ssh2Msg (kexinit newkeys)

variable {Ctx Z : Type} {env : Env Ctx Z} {p p' : Phase} {s s' : Conn Ctx Z}

/-! ## §1 Phases and states -/

/-- What `kex->peer`, `kex->my` and the flags are in a phase. -/
def KexIn : Phase → Kex → Prop
  | .idle, k => k.peer = [] ∧ k.initSent = false
  | .initSent my, k => k.peer = [] ∧ k.initSent = true ∧ k.my = my ∧ k.done = false
  | .initRcvd peer, k => k.peer = peer ∧ k.initSent = false
  | .bothInits peer my, k => k.peer = peer ∧ k.initSent = true ∧ k.my = my
  | _, _ => True

structure Matches (p : Phase) (s : Conn Ctx Z) : Prop where
  tracks : Tracks p s.packet
  sessionId : s.kex.sessionId = (hashes s.packet.history).head?
  kex : KexIn p s.kex
  done : s.kex.done = true → ∀ mode, s.packet.keyed mode = true

/-- How a run may be stopped: NEWKEYS without keys is fatal. -/
def StopOk (e : Stop) (s : Conn Ctx Z) : Prop :=
  ∃ p, Allowed s.packet.history p ∧ s.kex.sessionId = (hashes s.packet.history).head? ∧
    (p = .broken → e = .halt noKeys)

/-- What code of the packet layer leaves alone. -/
structure Kept (s s' : Conn Ctx Z) : Prop where
  kex : s'.kex = s.kex
  keyed : ∀ mode, s.packet.keyed mode = true → s'.packet.keyed mode = true

theorem Kept.trans {s s' s'' : Conn Ctx Z} (h : Kept s s') (h' : Kept s' s'') : Kept s s'' :=
  ⟨h'.kex.trans h.kex, fun mode hk => h'.keyed mode (h.keyed mode hk)⟩

variable (h : Matches p s)
include h

/-- The fields that are not in `Matches` may change. -/
theorem Matches.congr (hpacket : s'.packet = s.packet)
    (hkex : s'.kex = s.kex) : Matches p s' := by
  obtain ⟨htracks, hsession, hin, hdone⟩ := h
  rw [← hpacket, ← hkex] at *
  exact ⟨htracks, hsession, hin, hdone⟩

variable {t : State Ctx Z} {type : UInt8} {modeIn : Newkeys} {my peer : Bytes}

theorem Matches.moved (ht : Moved p' s.packet t)
    (hkex : KexIn p' s.kex) : Matches p' { s with packet := t } where
  tracks := ht.toTracks
  sessionId := by
    rw [ht.hashes]
    exact h.sessionId
  kex := hkex
  done := fun hdone mode => ht.keyed mode (h.done hdone mode)

theorem Matches.stop (hp : p ≠ .broken) (e : Stop) : StopOk e s :=
  ⟨p, h.tracks.allowed, h.sessionId, fun hb => absurd hb hp⟩

theorem Matches.ended (ht : Ended s.packet t) (e : Stop) :
    StopOk e { s with packet := t } := by
  obtain ⟨p', hp', hallowed, hhashes⟩ := ht
  refine ⟨p', hallowed, ?_, fun hb => absurd hb hp'⟩
  rw [hhashes]
  exact h.sessionId

theorem Matches.readEnded {e : Halt}
    (ht : ReadEnded e s.packet t) : StopOk (.halt e) { s with packet := t } := by
  rcases ht with ht | ⟨hallowed, hhashes, rfl⟩
  · exact h.ended ht _
  · refine ⟨.broken, hallowed, ?_, fun _ => rfl⟩
    rw [hhashes]
    exact h.sessionId

/-! ## §2 Reading packets -/

theorem reading_spec {α : Type} (hp : p ≠ .broken) (g : Get α) :
    wp (reading g) (fun _ s' => Matches p s' ∧ Kept s s') StopOk s := by
  have hsame : ∀ b, SameKeys s.packet { s.packet with incomingPacket := b } :=
    fun b => ⟨rfl, rfl, rfl, rfl⟩
  have hmoved := fun b => h.moved (h.tracks.moved (hsame b)) h.kex
  simp only [reading, onPacket, wp_zoomWith, wp_zoom]
  apply wp_intro
  · intro a b _
    exact ⟨hmoved b, rfl, fun _ hk => hk⟩
  · intro e b _
    exact (hmoved b).stop hp _

/-- The state when a packet of this type has been read in phase `p`. -/
def ReceivedIn (p : Phase) (type : UInt8) (s : Conn Ctx Z) : Prop :=
  (type ≠ newkeys ∧ Matches p s) ∨
  (type = newkeys ∧ (∃ modeIn, p = .outKeyed modeIn) ∧ Matches .keyed s ∧
    s.packet.keyed .modeIn = true)

omit h in
theorem ReceivedIn.congr (h : ReceivedIn p type s)
    (hpacket : s'.packet = s.packet) (hkex : s'.kex = s.kex) : ReceivedIn p type s' := by
  rcases h with ⟨htype, h⟩ | ⟨htype, hout, h, hkeyed⟩
  · exact .inl ⟨htype, h.congr hpacket hkex⟩
  · exact .inr ⟨htype, hout, h.congr hpacket hkex, by rw [hpacket]; exact hkeyed⟩

omit h in
theorem packetReadPoll_newkeys (b : Bytes) : packetReadPoll newkeys b = .ok true b := rfl

theorem pollOnce_spec (hp : Listening p) :
    wp (pollOnce env)
      (fun r s' => Kept s s' ∧
        match r with
        | none => Matches p s'
        | some (type, _) => ReceivedIn p type s')
      StopOk s := by
  simp only [pollOnce, onPacket, wp_bind, wp_zoomWith]
  refine wp_mono (packetReadPoll2_tracks hp h.tracks) ?_ fun e t ht => h.readEnded ht
  intro r t ht
  cases r with
  | none =>
    rw [wp_pure]
    exact ⟨⟨rfl, ht.keyed⟩, h.moved ht h.kex⟩
  | some r =>
    obtain ⟨type, seqnr⟩ := r
    rcases ht with ⟨htype, ht⟩ | ⟨rfl, hout, ht, hkeyed⟩
    · have hmatches := h.moved ht h.kex
      have hkept : Kept s { s with packet := t } := ⟨rfl, ht.keyed⟩
      simp only [wp_bind]
      refine wp_mono (reading_spec hmatches hp.ne_broken _) ?_ fun _ _ hstop => hstop
      intro forCaller s' hs'
      rw [wp_ite, wp_pure, wp_pure]
      exact ⟨fun _ => ⟨hkept.trans hs'.2, .inl ⟨htype, hs'.1⟩⟩,
        fun _ => ⟨hkept.trans hs'.2, hs'.1⟩⟩
    · -- NEWKEYS is always for the caller
      simp only [reading, onPacket, wp_bind, wp_zoomWith, wp_zoom]
      rw [wp_of_ok (packetReadPoll_newkeys _), wp_ite, wp_pure]
      refine ⟨fun _ => ⟨⟨rfl, ht.keyed⟩, .inr ⟨rfl, hout, ?_, hkeyed⟩⟩, fun hne => ?_⟩
      · exact h.moved { ht with } trivial
      · exact absurd rfl hne

omit h in
theorem packetReadFrom_spec (hp : Listening p) (events : List Event) (s : Conn Ctx Z)
    (h : Matches p s) :
    wp (packetReadFrom env events) (fun r s' => ReceivedIn p r.1 s' ∧ Kept s s') StopOk s := by
  induction events generalizing s with
  | nil =>
    simp only [packetReadFrom, wp_bind, wp_modify, wp_throw]
    exact (h.congr rfl rfl).stop hp.ne_broken _
  | cons event rest ih =>
    cases event with
    | recv bytes =>
      simp only [packetReadFrom, onPacket, wp_bind, wp_zoomWith, wp_modify]
      have hsame : SameKeys s.packet (State.feed bytes s.packet) := ⟨rfl, rfl, rfl, rfl⟩
      refine wp_imp (ih _ (h.moved (h.tracks.moved hsame) h.kex)) ?_
      intro r s' hs'
      exact ⟨hs'.1, hs'.2.kex, hs'.2.keyed⟩
    | poll =>
      rw [packetReadFrom]
      refine wp_seq (pollOnce_spec h hp) fun r s1 hs1 => ?_
      obtain ⟨hkept, hr⟩ := hs1
      cases r with
      | some r =>
        simp only [wp_bind, wp_modify, wp_pure]
        exact ⟨hr.congr rfl rfl, hkept.kex, hkept.keyed⟩
      | none =>
        refine wp_imp (ih s1 hr) ?_
        intro r' s2 hs2
        exact ⟨hs2.1, hkept.trans hs2.2⟩
    | roundEnd => exact ih s h
    | send _ => exact ih s h

theorem packetReadSeqnr_spec (hp : Listening p) :
    wp (packetReadSeqnr env) (fun r s' => ReceivedIn p r.1 s' ∧ Kept s s') StopOk s := by
  simp only [packetReadSeqnr, wp_bind, wp_get]
  exact packetReadFrom_spec hp _ s h

theorem packetRead_spec (hp : Listening p) :
    wp (packetRead env) (fun type s' => ReceivedIn p type s' ∧ Kept s s') StopOk s := by
  rw [packetRead]
  refine wp_seq (packetReadSeqnr_spec h hp) fun r s' hs' => ?_
  rw [wp_pure]
  exact hs'

/-- A message other than NEWKEYS is waited for. -/
theorem packetReadExpect_spec (hp : Listening p) (htype : type ≠ newkeys) :
    wp (packetReadExpect env type) (fun _ s' => Matches p s' ∧ Kept s s') StopOk s := by
  rw [packetReadExpect]
  refine wp_seq (packetRead_spec h hp) fun got s' hs' => ?_
  obtain ⟨hr, hkept⟩ := hs'
  rw [wp_ite, wp_pure, halt, wp_throw]
  rcases hr with ⟨-, hm⟩ | ⟨rfl, -, hm, -⟩
  · exact ⟨fun _ => hm.stop hp.ne_broken _, fun _ => ⟨hm, hkept⟩⟩
  · exact ⟨fun _ => hm.stop (by simp) _, fun hsame => absurd (not_not.mp hsame).symm htype⟩

omit h in
/-- The client's NEWKEYS is waited for. -/
theorem packetReadExpect_newkeys (h : Matches (.outKeyed modeIn) s) :
    wp (packetReadExpect env newkeys)
      (fun _ s' => Matches .keyed s' ∧ Kept s s' ∧ s'.packet.keyed .modeIn = true) StopOk s := by
  rw [packetReadExpect]
  refine wp_seq (packetRead_spec h trivial) fun got s' hs' => ?_
  obtain ⟨hr, hkept⟩ := hs'
  rw [wp_ite, wp_pure, halt, wp_throw]
  rcases hr with ⟨hne, hm⟩ | ⟨rfl, -, hm, hkeyed⟩
  · exact ⟨fun _ => hm.stop (by simp) _, fun hsame => absurd (not_not.mp hsame) hne⟩
  · exact ⟨fun hne => absurd rfl hne, fun _ => ⟨hm, hkept, hkeyed⟩⟩

/-! ## §3 KEXINIT -/

/-- The phase once the server's KEXINIT is sent. -/
def afterInit : Phase → Bytes → Phase
  | .idle, my => .initSent my
  | .initRcvd peer, my => .bothInits peer my
  | p, _ => p

/-- The phases in which the server may send KEXINIT. -/
def AwaitsInit (p : Phase) : Prop := p = .idle ∨ ∃ peer, p = .initRcvd peer

omit h in
theorem send_spec (payload : Bytes) (h : Matches p s) (hp : p ≠ .broken)
    (hkexinit : type ≠ kexinit) (hnewkeys : type ≠ newkeys) :
    wp (send env type payload) (fun _ s' => Matches p s' ∧ Kept s s') StopOk s := by
  simp only [send, onPacket, wp_zoomWith]
  refine wp_mono (packetSend_other payload h.tracks hp hkexinit hnewkeys) ?_ ?_
  · intro _ t ht
    exact ⟨h.moved ht h.kex, rfl, ht.keyed⟩
  · intro e t ht
    exact h.ended ht _

omit h in
theorem kexSendKexinit_sent (hsent : s.kex.initSent = true) : kexSendKexinit env s = .ok () s := by
  simp only [kexSendKexinit, get_bind_apply, hsent, if_true]
  rfl

/-- **KEXINIT is sent** with a fresh cookie, and `kex->my` is what was sent. -/
theorem kexSendKexinit_spec (hp : AwaitsInit p) :
    wp (kexSendKexinit env) (fun _ s' => ∃ my, Matches (afterInit p my) s') StopOk s := by
  have hne : p ≠ .broken := by
    rcases hp with rfl | ⟨peer, rfl⟩ <;> simp
  have hfresh : s.kex.initSent = false := by
    rcases hp with rfl | ⟨peer, rfl⟩
    · exact h.kex.2
    · exact h.kex.2
  -- neither `done` nor `my` is looked at in these phases
  have hkex : ∀ my, KexIn p { s.kex with done := false, my := my } := by
    rcases hp with rfl | ⟨peer, rfl⟩
    · exact fun _ => h.kex
    · exact fun _ => h.kex
  have hset : ∀ my, Matches p { s with kex := { s.kex with done := false, my := my } } :=
    fun my => ⟨h.tracks, h.sessionId, hkex my, fun hdone => by cases hdone⟩
  simp only [kexSendKexinit, setKex, halt, onPacket, send, wp_bind, wp_get, hfresh,
    Bool.false_eq_true, if_false, wp_modify]
  rw [wp_ite, wp_throw]
  refine ⟨fun _ => (hset s.kex.my).stop hne _, fun _ => ?_⟩
  simp only [wp_bind, wp_modify, wp_zoomWith]
  generalize hmy : randomPad env.crypto s.packet.randomCalls kexCookieLen ++
    s.kex.my.drop kexCookieLen = my
  have hsame : SameKeys s.packet { s.packet with randomCalls := s.packet.randomCalls + 4 } :=
    ⟨rfl, rfl, rfl, rfl⟩
  have hmatches := (hset my).moved (h.tracks.moved hsame) (hkex my)
  have hstep : ∀ e : Emitted, e.call = (kexinit, my) →
      Step p (.sent e) (afterInit p my) := by
    intro e he
    have htype : e.type = kexinit := congrArg Prod.fst he
    have hpayload : e.payload = my := congrArg Prod.snd he
    subst hpayload
    rcases hp with rfl | ⟨peer, rfl⟩
    · exact .sendInit e htype
    · exact .replyInit peer e htype
  have hpending : (afterInit p my).pending = p.pending := by
    rcases hp with rfl | ⟨peer, rfl⟩
    · funext mode
      cases mode <;> rfl
    · funext mode
      cases mode <;> rfl
  have hne' : afterInit p my ≠ .broken := by
    rcases hp with rfl | ⟨peer, rfl⟩ <;> simp [afterInit]
  refine wp_mono (packetSend_kexinit hmatches.tracks hne hne' hstep hpending) ?_ ?_
  · intro _ t ht
    refine ⟨my, ht.toTracks, ?_, ?_, fun hdone => by cases hdone⟩
    · rw [ht.hashes]
      exact h.sessionId
    · rcases hp with rfl | ⟨peer, rfl⟩
      · exact ⟨h.kex.1, rfl, rfl, rfl⟩
      · exact ⟨h.kex.1, rfl, rfl⟩
  · intro e t ht
    exact hmatches.ended ht _

/-! ## §4 The exchange -/

omit h in
theorem dhGenKeyLoop_spec (hp : p ≠ .broken) (dh : DhGroup) (bits tries : Nat)
    (s : Conn Ctx Z) (h : Matches p s) :
    wp (dhGenKeyLoop env dh bits tries) (fun _ s' => Matches p s') StopOk s := by
  induction tries generalizing s with
  | zero =>
    simp only [dhGenKeyLoop, halt, wp_bind, wp_modify, wp_throw]
    exact (h.congr rfl rfl).stop hp _
  | succ tries ih =>
    simp only [dhGenKeyLoop, wp_bind, wp_get, wp_modify]
    rw [wp_ite, wp_pure]
    exact ⟨fun _ => h.congr rfl rfl, fun _ => ih _ (h.congr rfl rfl)⟩

theorem dhGenKey_spec (hp : p ≠ .broken) (dh : DhGroup) (need : Nat) :
    wp (dhGenKey env dh need) (fun _ s' => Matches p s') StopOk s := by
  rw [dhGenKey, wp_ite, halt, wp_throw]
  exact ⟨fun _ => h.stop hp _, fun _ => dhGenKeyLoop_spec hp dh _ _ s h⟩

theorem loadHostKey_spec (hp : p ≠ .broken) (type : KeyType) :
    wp (loadHostKey env type) (fun _ s' => Matches p s') StopOk s := by
  unfold loadHostKey
  cases env.hostKey type with
  | none =>
    rw [halt, wp_throw]
    exact h.stop hp _
  | some key =>
    rw [wp_pure]
    exact h

theorem sharedSecret_spec (hp : p ≠ .broken) (dh : DhGroup) (privKey : Nat) :
    wp (sharedSecret env dh privKey) (fun _ s' => Matches p s') StopOk s := by
  simp only [sharedSecret, wp_bind]
  refine wp_mono (reading_spec h hp _) ?_ fun _ _ hstop => hstop
  intro dhClientPub s1 h1
  refine wp_imp (reading_spec h1.1 hp _) ?_
  intro _ s2 h2
  rw [wp_ite, halt, wp_throw]
  refine ⟨fun _ => h2.1.stop hp _, fun _ => ?_⟩
  cases env.dhComputeKey dh privKey dhClientPub with
  | none =>
    rw [halt, wp_throw]
    exact h2.1.stop hp _
  | some secret =>
    rw [wp_pure]
    exact h2.1

omit h

/-- `kex_derive_keys` makes key sets pending in both directions. -/
theorem deriveKeys_spec (h : Matches .hashed s) (conf : Conf) (hash : Bytes) (secret : Nat) :
    wp (deriveKeys env conf hash secret)
      (fun _ s' => ∃ modeIn modeOut, Matches (.derived modeIn modeOut) s') StopOk s := by
  simp only [deriveKeys, record, onPacket, wp_bind, wp_get, wp_zoomWith]
  apply wp_liftE
  · rintro ⟨modeIn, modeOut⟩ _
    simp only [wp_modify]
    refine ⟨modeIn, modeOut, ⟨h.tracks.allowed.snoc (.derive modeIn modeOut), ?_,
      h.tracks.queued⟩, ?_, trivial, h.done⟩
    · funext mode
      cases mode <;> rfl
    · exact h.sessionId.trans (congrArg head? (hashes_snoc rfl).symm)
  · intro e _
    exact h.stop (by simp) _

/-- `kex_finish`: the keys are switched in both directions. -/
theorem kexFinish_spec {modeOut : Newkeys} (h : Matches (.derived modeIn modeOut) s) :
    wp (kexFinish env) (fun _ s' => Matches .idle s') StopOk s := by
  simp only [kexFinish, record, send, onPacket, setKex, wp_bind, wp_zoomWith, wp_modify]
  refine wp_mono (packetSend_newkeys [] h.tracks) ?_ fun e t ht => h.ended ht _
  intro _ t ht
  obtain ⟨ht, hout⟩ := ht
  have h1 : Matches (.outKeyed modeIn) { s with packet := t } := h.moved ht trivial
  refine wp_mono (packetReadExpect_newkeys h1) ?_ fun _ _ hstop => hstop
  intro _ s2 h2
  obtain ⟨h2, hkept2, hin⟩ := h2
  refine wp_imp (reading_spec h2 (by simp) _) ?_
  intro _ s3 h3
  obtain ⟨h3, hkept3⟩ := h3
  refine ⟨⟨h3.tracks.allowed.snoc .finish, ?_, h3.tracks.queued⟩, ?_, ⟨rfl, rfl⟩, ?_⟩
  · exact h3.tracks.currentKeys.trans (funext fun mode => by cases mode <;> rfl)
  · exact h3.sessionId.trans (congrArg head? (hashes_snoc rfl).symm)
  · intro _ mode
    cases mode with
    | modeIn => exact hkept3.keyed .modeIn hin
    | modeOut => exact hkept3.keyed .modeOut (hkept2.keyed .modeOut hout)

/-- The end of both methods, from the call of the hash function on. -/
theorem replyAndFinish_spec {replyType : UInt8}
    (h : Matches (.bothInits peer my) s) (hkexinit : replyType ≠ kexinit)
    (hnewkeys : replyType ≠ newkeys) (conf : Conf) (hostKey : HostKey)
    (pubKey secret : Nat) (hash : Bytes) :
    wp (do
        record (.hashed s.kex.peer s.kex.my hash)
        replyAndFinish env replyType conf hostKey pubKey secret hash)
      (fun _ s' => Matches .idle s') StopOk s := by
  obtain ⟨hpeer, -, hmy⟩ := h.kex
  simp only [replyAndFinish, record, onPacket, setKex, wp_bind, wp_zoomWith, wp_modify]
  have hhashed : Matches .hashed { s with
      packet := s.packet.record (.hashed s.kex.peer s.kex.my hash)
      kex := { s.kex with sessionId := some (s.kex.sessionId.getD hash) } } := by
    refine ⟨⟨?_, ?_, h.tracks.queued⟩, ?_, trivial, h.done⟩
    · rw [hpeer, hmy]
      exact h.tracks.allowed.snoc (.hash peer my hash)
    · exact h.tracks.currentKeys.trans (funext fun mode => by cases mode <;> rfl)
    · -- the session id is the first hash, now or since an earlier exchange
      have hhashes : hashes (s.packet.history ++ [.hashed s.kex.peer s.kex.my hash]) =
          hashes s.packet.history ++ [hash] := by simp [hashes]
      show some _ = (hashes (s.packet.history ++ [_])).head?
      rw [hhashes, h.sessionId]
      cases hashes s.packet.history <;> rfl
  refine wp_imp (send_spec _ hhashed (by simp) hkexinit hnewkeys) ?_
  intro _ s1 h1
  refine wp_imp (deriveKeys_spec h1.1 conf hash secret) ?_
  intro _ s2 h2
  obtain ⟨modeIn, modeOut, h2⟩ := h2
  exact kexFinish_spec h2

theorem kexdhServer_spec (h : Matches (.bothInits peer my) s) (conf : Conf) :
    wp (kexdhServer env conf) (fun _ s' => Matches .idle s') StopOk s := by
  have hgroup : ∀ dh : DhGroup, wp (do
      let key ← dhGenKey env dh (conf.weNeed * 8)
      packetReadExpect env Ssh2Msg.kexdhInit
      let hostKey ← loadHostKey env conf.hostkeyType
      let shared ← sharedSecret env dh key.1
      let s ← get
      let hash := kexDhHash env.digests env.clientVersionString env.serverVersionString
        s.kex.peer s.kex.my hostKey.blob shared.1 key.2 shared.2
      record (.hashed s.kex.peer s.kex.my hash)
      replyAndFinish env Ssh2Msg.kexdhReply conf hostKey key.2 shared.2 hash)
      (fun _ s' => Matches .idle s') StopOk s := by
    intro dh
    refine wp_seq (dhGenKey_spec h (by simp) dh _) fun key s1 h1 => ?_
    refine wp_seq (packetReadExpect_spec h1 trivial (by decide)) fun _ s2 h2 => ?_
    refine wp_seq (loadHostKey_spec h2.1 (by simp) _) fun hostKey s3 h3 => ?_
    refine wp_seq (sharedSecret_spec h3 (by simp) dh _) fun r s4 h4 => ?_
    rw [wp_read]
    exact replyAndFinish_spec h4 (by decide) (by decide) conf hostKey _ _ _
  unfold kexdhServer
  cases conf.kexType with
  | dhGrp1Sha1 => exact hgroup dhNewGroup1
  | dhGrp14Sha1 => exact hgroup dhNewGroup14
  | dhGexSha1 =>
    rw [wp_bind, halt, wp_throw]
    exact h.stop (by simp) _
  | dhGexSha256 =>
    rw [wp_bind, halt, wp_throw]
    exact h.stop (by simp) _

theorem kexgexServer_spec (h : Matches (.bothInits peer my) s)
    (conf : Conf) : wp (kexgexServer env conf) (fun _ s' => Matches .idle s') StopOk s := by
  simp only [kexgexServer, wp_bind]
  refine wp_imp (loadHostKey_spec h (by simp) _) ?_
  intro hostKey s1 h1
  refine wp_imp (packetRead_spec h1 trivial) ?_
  intro type s2 h2
  -- NEWKEYS cannot be read before the server has sent its own
  have hm2 : Matches (.bothInits peer my) s2 := by
    rcases h2.1 with ⟨-, hm⟩ | ⟨-, ⟨_, hout⟩, -⟩
    · exact hm
    · cases hout
  refine wp_imp (reading_spec hm2 (by simp) _) ?_
  intro r s3 h3
  refine wp_imp (reading_spec h3.1 (by simp) _) ?_
  intro _ s4 h4
  rw [wp_ite, halt, wp_throw]
  refine ⟨fun _ => h4.1.stop (by simp) _, fun _ => ?_⟩
  simp only [chooseDh, wp_bind]
  refine wp_imp (send_spec _ h4.1 (by simp) (by decide) (by decide)) ?_
  intro _ s5 h5
  refine wp_imp (dhGenKey_spec h5.1 (by simp) _ _) ?_
  intro key s6 h6
  refine wp_imp (packetReadExpect_spec h6 trivial (by decide)) ?_
  intro _ s7 h7
  refine wp_imp (sharedSecret_spec h7.1 (by simp) _ _) ?_
  intro pub s8 h8
  rw [wp_get, ← wp_bind]
  exact replyAndFinish_spec h8 (by decide) (by decide) conf hostKey _ _ _

/-- From the client's KEXINIT to the end of the exchange, whoever has started it. -/
theorem kexKexinitFinish_spec
    (hp : p = .initRcvd peer ∨ ∃ my, p = .bothInits peer my) (h : Matches p s) :
    wp (kexKexinitFinish env) (fun _ s' => Matches .idle s') StopOk s := by
  have hsend : wp (kexSendKexinit env) (fun _ s' => ∃ my, Matches (.bothInits peer my) s')
      StopOk s := by
    rcases hp with rfl | ⟨my, rfl⟩
    · exact kexSendKexinit_spec h (.inr ⟨peer, rfl⟩)
    · rw [wp_of_ok (kexSendKexinit_sent h.kex.2.1)]
      exact ⟨my, h⟩
  simp only [kexKexinitFinish, wp_bind]
  refine wp_imp hsend ?_
  intro _ s1 h1
  obtain ⟨my, h1⟩ := h1
  simp only [onPacket, wp_get, wp_zoomWith]
  apply wp_liftE
  · intro conf _
    -- the packet skipped after a wrong guess comes before either method
    have hskip : ∀ method : ConnM Ctx Z Unit,
        (∀ s2, Matches (.bothInits peer my) s2 →
          wp method (fun _ s' => Matches .idle s') StopOk s2) →
        wp (if conf.skipNext then packetRead env >>= fun _ => method else method)
          (fun _ s' => Matches .idle s') StopOk s1 := by
      intro method hmethod
      rw [wp_ite]
      constructor
      · intro _
        refine wp_seq (packetRead_spec h1 trivial) fun type s2 h2 => ?_
        rcases h2.1 with ⟨-, hm⟩ | ⟨-, ⟨_, hout⟩, -⟩
        · exact hmethod s2 hm
        · cases hout
      · intro _
        exact hmethod s1 h1
    apply hskip
    intro s2 h2
    cases conf.kexType with
    | dhGrp1Sha1 => exact kexdhServer_spec h2 conf
    | dhGrp14Sha1 => exact kexdhServer_spec h2 conf
    | dhGexSha1 => exact kexgexServer_spec h2 conf
    | dhGexSha256 => exact kexgexServer_spec h2 conf
  · intro e _
    exact h1.stop (by simp) _

/-- The phases between two packets of the three loops. -/
def Resting (p : Phase) : Prop := p = .idle ∨ ∃ my, p = .initSent my

theorem Resting.listening (h : Resting p) : Listening p := by
  rcases h with rfl | ⟨my, rfl⟩ <;> trivial

theorem kexInputKexinit_spec (hp : Resting p) (h : Matches p s) :
    wp (kexInputKexinit env) (fun _ s' => Matches .idle s') StopOk s := by
  simp only [kexInputKexinit, record, onPacket, setKex, wp_bind, wp_get, wp_modify,
    wp_zoomWith]
  generalize s.packet.incomingPacket = payload
  obtain ⟨p', hp', hstep, hpending, hkex⟩ : ∃ p',
      (p' = .initRcvd payload ∨ ∃ my, p' = .bothInits payload my) ∧
      Step p (.kexinit payload) p' ∧ p'.pending = p.pending ∧
      KexIn p' { s.kex with peer := s.kex.peer ++ payload } := by
    rcases hp with rfl | ⟨my, rfl⟩
    · refine ⟨_, .inl rfl, .rcvdInit payload, funext fun mode => by cases mode <;> rfl, ?_⟩
      refine ⟨?_, h.kex.2⟩
      rw [h.kex.1, nil_append]
    · refine ⟨_, .inr ⟨my, rfl⟩, .rcvdReply my payload,
        funext fun mode => by cases mode <;> rfl, ?_⟩
      refine ⟨?_, h.kex.2.1, h.kex.2.2.1⟩
      rw [h.kex.1, nil_append]
  have hne : p' ≠ .broken := by
    rcases hp' with rfl | ⟨my, rfl⟩ <;> simp
  have hrcvd : Matches p' { s with
      packet := s.packet.record (.kexinit payload)
      kex := { s.kex with peer := s.kex.peer ++ payload } } := by
    have hmoved := h.tracks.record hstep hpending rfl
    exact ⟨hmoved.toTracks, h.sessionId.trans (congrArg head? hmoved.hashes.symm), hkex,
      h.done⟩
  refine wp_imp (reading_spec hrcvd hne _) ?_
  intro _ s1 h1
  exact kexKexinitFinish_spec hp' h1.1

/-! ## §5 The loops -/

/-- The state between two packets. -/
def AtRest (s : Conn Ctx Z) : Prop := ∃ p, Resting p ∧ Matches p s

theorem Matches.atRest (h : Matches .idle s) : AtRest s := ⟨.idle, .inl rfl, h⟩

/-- **Blocking dispatcher**: a handler that leaves the thread at rest makes a loop that
does. -/
theorem dispatchRun_spec {handler : UInt8 → UInt32 → ConnM Ctx Z Unit} {done : Conn Ctx Z → Bool}
    (hhandler : ∀ type seqnr s, AtRest s → wp (handler type seqnr) (fun _ => AtRest) StopOk s)
    (turns : Nat) (s : Conn Ctx Z) (h : AtRest s) :
    wp (dispatchRun env handler done turns) (fun _ s' => AtRest s' ∧ done s' = true) StopOk s := by
  induction turns generalizing s with
  | zero =>
    obtain ⟨p, hp, h⟩ := h
    rw [dispatchRun, wp_throw]
    exact h.stop hp.listening.ne_broken _
  | succ turns ih =>
    obtain ⟨p, hp, h⟩ := h
    simp only [dispatchRun, wp_bind]
    refine wp_imp (packetReadSeqnr_spec h hp.listening) ?_
    intro r s1 h1
    have hrest : AtRest s1 := by
      rcases h1.1 with ⟨-, hm⟩ | ⟨-, ⟨modeIn, hout⟩, -⟩
      · exact ⟨p, hp, hm⟩
      · rcases hp with rfl | ⟨my, rfl⟩ <;> cases hout
    refine wp_imp (hhandler r.1 r.2 s1 hrest) ?_
    intro _ s2 h2
    rw [wp_get, wp_ite, wp_pure]
    exact ⟨fun hdone => ⟨h2, hdone⟩, fun _ => ih s2 h2⟩

theorem kexDispatch_spec (type : UInt8) (seqnr : UInt32) (s : Conn Ctx Z) (h : AtRest s) :
    wp (kexDispatch env type seqnr) (fun _ => AtRest) StopOk s := by
  rw [kexDispatch, wp_ite, wp_pure]
  refine ⟨fun _ => ?_, fun _ => h⟩
  obtain ⟨p, hp, h⟩ := h
  exact wp_imp (kexInputKexinit_spec hp h) fun _ _ h' => h'.atRest

/-- `done` is cleared when KEXINIT is sent, so it is set only when no exchange is going
on, and then both directions have keys. -/
theorem AtRest.of_done (h : AtRest s) (hdone : s.kex.done = true) :
    Matches .idle s ∧ ∀ mode, s.packet.keyed mode = true := by
  obtain ⟨p, hp, h⟩ := h
  rcases hp with rfl | ⟨my, rfl⟩
  · exact ⟨h, h.done hdone⟩
  · rw [h.kex.2.2.2] at hdone
    cases hdone

theorem doSsh2Kex_spec (h : Matches .idle s) (hsession : s.kex.sessionId = none) (turns : Nat) :
    wp (doSsh2Kex env turns)
      (fun _ s' => Matches .idle s' ∧ ∀ mode, s'.packet.keyed mode = true) StopOk s := by
  simp only [doSsh2Kex, setKex, wp_bind, wp_modify]
  have hsetup : Matches .idle { s with kex := { my := kexProp2buf env.myproposal } } :=
    ⟨h.tracks, hsession.symm.trans h.sessionId, ⟨rfl, rfl⟩, fun hdone => by cases hdone⟩
  refine wp_imp (kexSendKexinit_spec hsetup (.inl rfl)) ?_
  intro _ s1 h1
  obtain ⟨my, h1⟩ := h1
  have hrest : AtRest s1 := ⟨_, .inr ⟨my, rfl⟩, h1⟩
  refine wp_imp (dispatchRun_spec kexDispatch_spec turns s1 hrest) ?_
  intro _ s2 h2
  exact h2.1.of_done h2.2

theorem sendAll_spec (packets : List Packet) (s : Conn Ctx Z) (h : AtRest s)
    (hreply : ∀ q ∈ packets, IsReply q) : wp (sendAll env packets) (fun _ => AtRest) StopOk s := by
  induction packets generalizing s with
  | nil =>
    rw [sendAll, wp_pure]
    exact h
  | cons q rest ih =>
    have hq : IsReply q := hreply q (mem_cons_self ..)
    have htypes : q.type ≠ kexinit ∧ q.type ≠ newkeys := by
      constructor <;> intro htype <;> rw [IsReply, htype] at hq <;> revert hq <;> decide
    obtain ⟨p, hp, h⟩ := h
    rw [sendAll]
    refine wp_seq (send_spec q.payload h hp.listening.ne_broken htypes.1 htypes.2) fun _ s1 h1 => ?_
    exact ih s1 ⟨p, hp, h1.1⟩ fun r hr => hreply r (mem_cons_of_mem _ hr)

theorem authDispatch_spec (type : UInt8) (seqnr : UInt32) (s : Conn Ctx Z) (h : AtRest s) :
    wp (authDispatch env type seqnr) (fun _ => AtRest) StopOk s := by
  have hset : ∀ auth, AtRest { s with auth := auth } := by
    intro auth
    obtain ⟨p, hp, h⟩ := h
    exact ⟨p, hp, h.congr rfl rfl⟩
  simp only [authDispatch, wp_bind, wp_get]
  generalize hstart : ({ s.auth with incomingPacket := s.packet.incomingPacket, sent := [] } :
    AuthState) = start
  have honly : OnlyReplies start := by
    subst hstart
    intro q hq
    cases hq
  have hsent := dispatchMsg_keeps env.auth type seqnr start honly
  cases hmsg : dispatchMsg env.auth type seqnr start with
  | ok _ auth =>
    rw [wp_of_ok hmsg] at hsent
    simp only [wp_bind, wp_set]
    exact sendAll_spec auth.sent _ (hset auth) hsent
  | error e auth =>
    rw [wp_of_error hmsg] at hsent
    simp only [wp_bind, wp_set]
    refine wp_imp (sendAll_spec auth.sent _ (hset auth) hsent) ?_
    intro _ s1 h1
    obtain ⟨p, hp, h1⟩ := h1
    rw [halt, wp_throw]
    exact h1.stop hp.listening.ne_broken _

theorem doAuthentication2_spec (h : Matches .idle s)
    (hkeyed : ∀ mode, s.packet.keyed mode = true) (turns : Nat) :
    wp (doAuthentication2 env turns) (fun _ => AtRest) StopOk s := by
  obtain ⟨modeIn, hin⟩ := Option.isSome_iff_exists.mp (hkeyed .modeIn)
  obtain ⟨modeOut, hout⟩ := Option.isSome_iff_exists.mp (hkeyed .modeOut)
  simp only [doAuthentication2, record, onPacket, wp_bind, wp_get, wp_zoomWith, wp_modify]
  have hstart : Matches .idle { s with
      packet := State.record
        (.authenticating s.packet.recv.newkeys s.packet.send.newkeys) s.packet } := by
    refine h.moved (h.tracks.record ?_ rfl rfl) h.kex
    rw [hin, hout]
    exact .authenticate modeIn modeOut
  refine wp_imp (dispatchRun_spec authDispatch_spec turns _ hstart.atRest) ?_
  intro _ s1 h1
  exact h1.1

theorem serverDispatch_spec (type : UInt8) (seqnr : UInt32) (s : Conn Ctx Z) (h : AtRest s) :
    wp (serverDispatch env type seqnr) (fun _ => AtRest) StopOk s := by
  rw [serverDispatch, wp_ite, wp_ite, wp_pure]
  obtain ⟨p, hp, h⟩ := h
  refine ⟨fun _ => ?_, fun _ => ⟨fun _ => ⟨p, hp, h⟩, fun _ => ?_⟩⟩
  · exact wp_imp (kexInputKexinit_spec hp h) fun _ _ h' => h'.atRest
  · exact wp_imp (send_spec _ h hp.listening.ne_broken (by decide) (by decide))
      fun _ _ h' => ⟨p, hp, h'.1⟩

theorem serverEvent_spec (event : Event) (s : Conn Ctx Z) (h : AtRest s) :
    wp (serverEvent env event) (fun _ => AtRest) StopOk s := by
  cases event with
  | recv bytes =>
    obtain ⟨p, hp, h⟩ := h
    simp only [serverEvent, onPacket, wp_zoomWith, wp_modify]
    exact ⟨p, hp, h.moved (h.tracks.moved ⟨rfl, rfl, rfl, rfl⟩) h.kex⟩
  | poll =>
    obtain ⟨p, hp, h⟩ := h
    rw [serverEvent]
    refine wp_seq (pollOnce_spec h hp.listening) fun r s1 h1 => ?_
    cases r with
    | none =>
      rw [wp_pure]
      exact ⟨p, hp, h1.2⟩
    | some r =>
      rcases h1.2 with ⟨-, hm⟩ | ⟨-, ⟨modeIn, hout⟩, -⟩
      · exact serverDispatch_spec r.1 r.2 s1 ⟨p, hp, hm⟩
      · rcases hp with rfl | ⟨my, rfl⟩ <;> cases hout
  | roundEnd =>
    simp only [serverEvent, checkRekeying, setKex, wp_bind, wp_get]
    rw [wp_ite, wp_pure]
    refine ⟨fun hneed => ?_, fun _ => h⟩
    -- the server starts an exchange only when none is going on
    rw [Bool.and_eq_true] at hneed
    have hidle := (h.of_done hneed.1).1
    simp only [wp_bind, wp_modify]
    have hclear : Matches .idle { s with kex := { s.kex with done := false } } :=
      { hidle with done := fun hdone => by cases hdone }
    refine wp_imp (kexSendKexinit_spec hclear (.inl rfl)) ?_
    intro _ s1 h1
    obtain ⟨my, h1⟩ := h1
    exact ⟨_, .inr ⟨my, rfl⟩, h1⟩
  | send msg =>
    obtain ⟨p, hp, h⟩ := h
    have hkexinit : msg.type ≠ kexinit := by
      intro htype
      have hconn := msg.isConnection
      rw [htype] at hconn
      revert hconn
      decide
    have hnewkeys : msg.type ≠ newkeys := by
      intro htype
      have hconn := msg.isConnection
      rw [htype] at hconn
      revert hconn
      decide
    exact wp_imp (send_spec msg.payload h hp.listening.ne_broken hkexinit hnewkeys)
      fun _ _ h' => ⟨p, hp, h'.1⟩

theorem serverLoop_spec (turns : Nat) (s : Conn Ctx Z) (h : AtRest s) :
    wp (serverLoop env turns) (fun _ => AtRest) StopOk s := by
  have hstop : ∀ s : Conn Ctx Z, AtRest s → StopOk .waiting s := by
    rintro s ⟨p, hp, h⟩
    exact h.stop hp.listening.ne_broken _
  induction turns generalizing s with
  | zero =>
    rw [serverLoop, wp_throw]
    exact hstop s h
  | succ turns ih =>
    simp only [serverLoop, wp_bind, wp_get]
    cases s.schedule with
    | nil =>
      rw [wp_throw]
      exact hstop s h
    | cons event rest =>
      have hpop : AtRest { s with schedule := rest } := by
        obtain ⟨p, hp, h⟩ := h
        exact ⟨p, hp, h.congr rfl rfl⟩
      simp only [wp_bind, wp_modify]
      refine wp_imp (serverEvent_spec event _ hpop) ?_
      intro _ s1 h1
      exact ih s1 h1

/-- **Refinement.** Whatever the schedule is, the history of a run is allowed by the
protocol, and the session id is the hash of the first exchange in it. -/
theorem run_spec (h : Matches .idle s) (hsession : s.kex.sessionId = none) (turns : Nat) :
    wp (run env turns) (fun _ => AtRest) StopOk s := by
  simp only [run, wp_bind]
  refine wp_imp (doSsh2Kex_spec h hsession turns) ?_
  intro _ s1 h1
  refine wp_imp (doAuthentication2_spec h1.1 h1.2 turns) ?_
  intro _ s2 h2
  exact serverLoop_spec turns s2 h2

theorem start_matches (receive send : Ctx) (inflate deflate : Z) (schedule : List Event) :
    Matches .idle (Conn.start receive send inflate deflate schedule) where
  tracks := ⟨.nil, funext fun mode => by cases mode <;> rfl, fun q hq => by cases hq⟩
  sessionId := rfl
  kex := ⟨rfl, rfl⟩
  done := fun hdone => by cases hdone

end Shiesh.Connection
