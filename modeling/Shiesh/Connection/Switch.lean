import Shiesh.Connection.Discipline

/-!
# The Switch for Delayed Compression

`after_authentication` is set in two places, one for each role: where a client reads
USERAUTH_SUCCESS and where a server has sent it. `server_side` says which role this is.
-/

namespace Shiesh.Connection

open Shiesh.Lib Shiesh.Transport Shiesh.Kex Shiesh.Auth
open Ssh2Msg (userauthSuccess)

variable {Ctx Z : Type} {env : Env Ctx Z} {I : State Ctx Z → Prop} {α : Type} {m : PacketM Ctx Z α}

/-! ## §1 Invariants of the packet layer -/

/-- `I` is kept by all that the thread does to the packet layer. -/
structure PacketInvariant (X : Extern Ctx Z) (I : State Ctx Z → Prop) : Prop where
  send : ∀ type payload, Keeps I (packetSend X type payload)
  poll : Keeps I (packetReadPoll2 X)
  feed : ∀ bytes s, I s → I (s.feed bytes)
  incoming : ∀ packet s, I s → I { s with incomingPacket := packet }
  random : ∀ n s, I s → I { s with randomCalls := n }
  derived : ∀ modeIn modeOut s, I s → I { s with
    recv := { s.recv with currentKeys := modeIn }
    send := { s.send with currentKeys := modeOut } }
  -- packets are recorded by `send` and `poll`
  record : ∀ a s, (∀ type, a ≠ .received type) → I s → I (s.record a)

/-- `I` holds of the packet layer of a connection. -/
def OnPacket (I : State Ctx Z → Prop) (s : Conn Ctx Z) : Prop := I s.packet

theorem onPacket_keeps (h : Keeps I m) :
    Keeps (OnPacket I) (onPacket m) := by
  intro s hs
  rw [onPacket, wp_zoomWith]
  exact h s.packet hs

theorem setKex_keeps (f : Kex → Kex) : Keeps (OnPacket I) (setKex f) :=
  .modify fun _ hs => hs

theorem halt_keeps (e : Halt) : Keeps (OnPacket I) (halt (α := α) e) :=
  .throw _

namespace PacketInvariant

variable (h : PacketInvariant env.crypto I) (conf : Conf) (turns : Nat)
include h

theorem reading (g : Get α) :
    Keeps (OnPacket I) (reading g) := by
  apply onPacket_keeps
  intro s hs
  rw [wp_zoom]
  exact wp_intro (fun _ b _ => h.incoming b s hs) fun _ b _ => h.incoming b s hs

theorem recorded {a : Action}
    (ha : ∀ type, a ≠ .received type) : Keeps (OnPacket I) (Connection.record a) :=
  onPacket_keeps (.modify fun s hs => h.record a s ha hs)

theorem sent (type : UInt8) (payload : Bytes) :
    Keeps (OnPacket I) (Connection.send env type payload) :=
  onPacket_keeps (h.send type payload)

theorem pollOnce : Keeps (OnPacket I) (pollOnce env) := by
  apply Keeps.bind (onPacket_keeps h.poll)
  intro r
  cases r with
  | none => exact .pure none
  | some r =>
    apply Keeps.bind (h.reading _)
    intro forCaller
    exact .ite (.pure _) (.pure _)

theorem packetReadFrom (events : List Event) :
    Keeps (OnPacket I) (packetReadFrom env events) := by
  induction events with
  | nil =>
    apply Keeps.bind
    · exact .modify fun _ hs => hs
    · exact fun _ => .throw _
  | cons event rest ih =>
    cases event with
    | recv bytes =>
      apply Keeps.bind
      · exact onPacket_keeps (.modify (h.feed bytes))
      · exact fun _ => ih
    | poll =>
      apply Keeps.bind h.pollOnce
      intro r
      cases r with
      | none => exact ih
      | some r =>
        apply Keeps.bind
        · exact .modify fun _ hs => hs
        · exact fun _ => .pure r
    | roundEnd => exact ih
    | send _ => exact ih

theorem packetReadSeqnr :
    Keeps (OnPacket I) (packetReadSeqnr env) :=
  Keeps.get.bind fun s => h.packetReadFrom s.schedule

theorem packetRead : Keeps (OnPacket I) (packetRead env) :=
  h.packetReadSeqnr.bind fun r => .pure r.1

theorem packetReadExpect (expected : UInt8) :
    Keeps (OnPacket I) (packetReadExpect env expected) :=
  h.packetRead.bind fun _ => .ite (halt_keeps _) (.pure ())

theorem kexSendKexinit :
    Keeps (OnPacket I) (kexSendKexinit env) := by
  apply Keeps.get.bind
  intro s
  apply Keeps.ite (.pure ())
  apply (setKex_keeps _).bind
  intro _
  apply Keeps.ite (halt_keeps _)
  apply (setKex_keeps _).bind
  intro _
  apply (onPacket_keeps (.modify fun s hs => h.random _ s hs)).bind
  intro _
  exact (h.sent _ _).bind fun _ => setKex_keeps _

omit h in
theorem dhGenKey (dh : DhGroup) (need : Nat) : Keeps (OnPacket I) (dhGenKey env dh need) := by
  have hloop : ∀ bits tries, Keeps (OnPacket I) (dhGenKeyLoop env dh bits tries) := by
    intro bits tries
    induction tries with
    | zero =>
      apply Keeps.bind
      · exact .modify fun _ hs => hs
      · exact fun _ => halt_keeps _
    | succ tries ih =>
      apply Keeps.get.bind
      intro s
      apply Keeps.bind
      · exact .modify fun _ hs => hs
      · exact fun _ => .ite (.pure _) ih
  exact .ite (halt_keeps _) (hloop _ _)

omit h in
theorem loadHostKey (type : KeyType) : Keeps (OnPacket I) (loadHostKey env type) := by
  unfold Connection.loadHostKey
  cases env.hostKey type with
  | none => exact halt_keeps _
  | some key => exact .pure key

theorem sharedSecret (dh : DhGroup) (privKey : Nat) :
    Keeps (OnPacket I) (sharedSecret env dh privKey) := by
  apply (h.reading _).bind
  intro dhClientPub
  apply (h.reading _).bind
  intro _
  apply Keeps.ite (halt_keeps _)
  cases env.dhComputeKey dh privKey dhClientPub with
  | none => exact halt_keeps _
  | some secret => exact .pure _

theorem kexFinish : Keeps (OnPacket I) (kexFinish env) := by
  apply (h.sent _ _).bind
  intro _
  apply (h.packetReadExpect _).bind
  intro _
  apply (h.reading _).bind
  intro _
  apply (setKex_keeps _).bind
  intro _
  exact h.recorded fun _ ha => by cases ha

theorem deriveKeys (hash : Bytes)
    (secret : Nat) : Keeps (OnPacket I) (deriveKeys env conf hash secret) := by
  apply Keeps.get.bind
  intro s
  apply (onPacket_keeps (.liftE _)).bind
  intro keys
  apply (onPacket_keeps (.modify fun s hs => h.derived _ _ s hs)).bind
  intro _
  exact h.recorded fun _ ha => by cases ha

theorem replyAndFinish (replyType : UInt8) (conf : Conf)
    (hostKey : HostKey) (pubKey secret : Nat) (hash : Bytes) :
    Keeps (OnPacket I) (replyAndFinish env replyType conf hostKey pubKey secret hash) := by
  apply (setKex_keeps _).bind
  intro _
  apply (h.sent _ _).bind
  intro _
  exact (h.deriveKeys _ _ _).bind fun _ => h.kexFinish

theorem kexdhServer :
    Keeps (OnPacket I) (kexdhServer env conf) := by
  have hgroup : ∀ dh : DhGroup, Keeps (OnPacket I) (do
      let key ← Connection.dhGenKey env dh (conf.weNeed * 8)
      Connection.packetReadExpect env Ssh2Msg.kexdhInit
      let hostKey ← Connection.loadHostKey env conf.hostkeyType
      let shared ← Connection.sharedSecret env dh key.1
      let s ← get
      let hash := kexDhHash env.digests env.clientVersionString env.serverVersionString
        s.kex.peer s.kex.my hostKey.blob shared.1 key.2 shared.2
      Connection.record (.hashed s.kex.peer s.kex.my hash)
      Connection.replyAndFinish env Ssh2Msg.kexdhReply conf hostKey key.2 shared.2 hash) := by
    intro dh
    apply (dhGenKey dh _).bind
    intro key
    apply (h.packetReadExpect _).bind
    intro _
    apply (loadHostKey _).bind
    intro hostKey
    apply (h.sharedSecret _ _).bind
    intro shared
    apply Keeps.get.bind
    intro s
    apply (h.recorded fun _ ha => by cases ha).bind
    exact fun _ => h.replyAndFinish _ _ _ _ _ _
  unfold Connection.kexdhServer
  cases conf.kexType with
  | dhGrp1Sha1 => exact hgroup dhNewGroup1
  | dhGrp14Sha1 => exact hgroup dhNewGroup14
  | dhGexSha1 => exact (halt_keeps _).bind hgroup
  | dhGexSha256 => exact (halt_keeps _).bind hgroup

theorem kexgexServer :
    Keeps (OnPacket I) (kexgexServer env conf) := by
  apply (loadHostKey _).bind
  intro hostKey
  apply h.packetRead.bind
  intro type
  apply (h.reading _).bind
  intro request
  apply (h.reading _).bind
  intro _
  apply Keeps.ite (halt_keeps _)
  -- `choose_dh` always has a group
  apply (h.sent _ _).bind
  intro _
  apply (dhGenKey _ _).bind
  intro key
  apply (h.packetReadExpect _).bind
  intro _
  apply (h.sharedSecret _ _).bind
  intro shared
  apply Keeps.get.bind
  intro s
  apply (h.recorded fun _ ha => by cases ha).bind
  exact fun _ => h.replyAndFinish _ _ _ _ _ _

theorem kexInputKexinit :
    Keeps (OnPacket I) (kexInputKexinit env) := by
  apply Keeps.get.bind
  intro s
  apply (setKex_keeps _).bind
  intro _
  apply (h.recorded fun _ ha => by cases ha).bind
  intro _
  apply (h.reading _).bind
  intro _
  apply h.kexSendKexinit.bind
  intro _
  apply Keeps.get.bind
  intro s
  apply (onPacket_keeps (.liftE _)).bind
  intro conf
  have hskip : ∀ method : ConnM Ctx Z Unit, Keeps (OnPacket I) method →
      Keeps (OnPacket I)
        (if conf.skipNext then Connection.packetRead env >>= fun _ => method else method) :=
    fun _ hmethod => .ite (h.packetRead.bind fun _ => hmethod) hmethod
  apply hskip
  cases conf.kexType with
  | dhGrp1Sha1 => exact h.kexdhServer conf
  | dhGrp14Sha1 => exact h.kexdhServer conf
  | dhGexSha1 => exact h.kexgexServer conf
  | dhGexSha256 => exact h.kexgexServer conf

theorem dispatchRun
    {handler : UInt8 → UInt32 → ConnM Ctx Z Unit} {done : Conn Ctx Z → Bool}
    (hhandler : ∀ type seqnr, Keeps (OnPacket I) (handler type seqnr)) (turns : Nat) :
    Keeps (OnPacket I) (dispatchRun env handler done turns) := by
  induction turns with
  | zero => exact .throw _
  | succ turns ih =>
    apply h.packetReadSeqnr.bind
    intro r
    apply (hhandler r.1 r.2).bind
    intro _
    exact Keeps.get.bind fun _ => .ite (.pure ()) ih

theorem doSsh2Kex :
    Keeps (OnPacket I) (doSsh2Kex env turns) := by
  apply (setKex_keeps _).bind
  intro _
  apply h.kexSendKexinit.bind
  intro _
  apply h.dispatchRun
  intro type seqnr
  exact .ite h.kexInputKexinit (.pure ())

theorem authDispatch (type : UInt8) (seqnr : UInt32) :
    Keeps (OnPacket I) (authDispatch env type seqnr) := by
  have hsend : ∀ packets, Keeps (OnPacket I) (sendAll env packets) := by
    intro packets
    induction packets with
    | nil => exact .pure ()
    | cons p rest ih => exact (h.sent p.type p.payload).bind fun _ => ih
  intro s hs
  simp only [Connection.authDispatch, wp_bind, wp_get]
  cases dispatchMsg env.auth type seqnr
      { s.auth with incomingPacket := s.packet.incomingPacket, sent := [] } with
  | ok _ auth =>
    simp only [wp_bind, wp_set]
    exact hsend _ _ hs
  | error e auth =>
    simp only [wp_bind, wp_set]
    exact wp_mono (hsend _ _ hs) (fun _ s' hs' => halt_keeps e s' hs') fun _ _ hs' => hs'

theorem serverEvent (event : Event) :
    Keeps (OnPacket I) (serverEvent env event) := by
  cases event with
  | recv bytes => exact onPacket_keeps (.modify (h.feed bytes))
  | poll =>
    apply Keeps.bind h.pollOnce
    intro r
    cases r with
    | none => exact .pure ()
    | some r =>
      exact .ite h.kexInputKexinit (.ite (.pure ()) (h.sent _ _))
  | roundEnd =>
    apply Keeps.get.bind
    intro s
    apply Keeps.ite _ (.pure ())
    exact (setKex_keeps _).bind fun _ => h.kexSendKexinit
  | send msg => exact h.sent msg.type msg.payload

theorem serverLoop :
    Keeps (OnPacket I) (serverLoop env turns) := by
  induction turns with
  | zero => exact .throw _
  | succ turns ih =>
    apply Keeps.get.bind
    intro s
    cases s.schedule with
    | nil => exact .throw _
    | cons event rest =>
      apply Keeps.bind
      · exact .modify fun _ hs => hs
      · exact fun _ => (h.serverEvent event).bind fun _ => ih

/-- **Runs**: an invariant of the packet layer is kept by `CoreConnection::run`. -/
theorem run :
    Keeps (OnPacket I) (run env turns) := by
  apply (h.doSsh2Kex turns).bind
  intro _
  apply Keeps.bind
  · apply Keeps.get.bind
    intro s
    apply (h.recorded fun _ ha => by cases ha).bind
    exact fun _ => h.dispatchRun h.authDispatch turns
  · exact fun _ => h.serverLoop turns

end PacketInvariant

/-! ## §2 What the flag follows -/

/-- USERAUTH_SUCCESS has been received. -/
def SuccessReceived (history : List Action) : Prop :=
  .received userauthSuccess ∈ history

/-- The types of the packets that have been sent. -/
def sentTypes (history : List Action) : List UInt8 :=
  history.filterMap fun
    | .sent e => some e.type
    | _ => none

/-- USERAUTH_SUCCESS has been sent. -/
def SuccessSent (history : List Action) : Prop :=
  userauthSuccess ∈ sentTypes history

/-- Where the switch stands. -/
structure Stands (flag : Bool) (received : Prop) (s : State Ctx Z) : Prop where
  flag : s.afterAuthentication = flag
  received : SuccessReceived s.history ↔ received

section Stands

variable {X : Extern Ctx Z} {flag : Bool} {received : Prop} {s s' : State Ctx Z}

theorem Stands.congr (h : Stands flag received s)
    (hflag : s'.afterAuthentication = s.afterAuthentication) (hhistory : s'.history = s.history) :
    Stands flag received s' := by
  refine ⟨hflag.trans h.flag, ?_⟩
  rw [hhistory]
  exact h.received

theorem Stands.record {a : Action} (h : Stands flag received s)
    (ha : a ≠ .received userauthSuccess) : Stands flag received (s.record a) := by
  refine ⟨h.flag, ?_⟩
  rw [← h.received]
  simp [SuccessReceived, State.record, ha.symm]

theorem Stands.unsent : Unsent (Stands flag received : State Ctx Z → Prop) :=
  fun _ _ _ _ _ _ _ _ h => h.congr rfl rfl

theorem setNewkeys_stands : Keeps (Stands flag received) (setNewkeysIn X) ∧
    Keeps (Stands flag received) (setNewkeysOut X) := by
  -- the two directions differ only in the fields they write
  constructor
  all_goals
    apply Keeps.bind (.modify fun _ hs => hs.congr rfl rfl)
    intro _
    apply Keeps.get.bind
    intro s
    split
    case h_1 => exact .throw _
    case h_2 =>
      apply Keeps.bind (.modify fun _ hs => hs.record fun ha => by cases ha)
      intro _
      apply (Keeps.liftE _).bind
      intro d
      apply Keeps.ite
      · exact Keeps.modify fun _ hs => hs.congr rfl rfl
      · exact .modify fun _ hs => hs.congr rfl rfl

/-- No packet that is sent moves the switch: `server_side` is 0. -/
theorem packetSend2Wrapped_stands : Keeps (Stands flag received) (packetSend2Wrapped X) := by
  apply Keeps.get.bind
  intro s
  apply (compressOutgoing_keeps Stands.unsent).bind
  intro _
  apply (padOutgoing_keeps Stands.unsent).bind
  intro _
  apply (sealOutgoing_keeps Stands.unsent).bind
  intro _
  apply Keeps.bind
  · apply Keeps.modify
    intro s1 hs
    have hsent : Stands flag received (s1.record (.sent s.entry)) :=
      hs.record fun ha => by cases ha
    exact hsent.congr rfl rfl
  intro _
  apply (countOutgoing_keeps Stands.unsent).bind
  intro _
  apply Keeps.ite setNewkeys_stands.2
  rw [if_neg fun h => Bool.false_ne_true h.2]
  exact .pure ()

theorem packetSend_stands (type : UInt8) (payload : Bytes) :
    Keeps (Stands flag received) (packetSend X type payload) := by
  have hflush : ∀ queue, Keeps (Stands flag received) (flushOutgoing X queue) := by
    intro queue
    induction queue with
    | nil => exact .pure ()
    | cons p rest ih =>
      apply Keeps.bind (.modify fun _ hs => hs.congr rfl rfl)
      intro _
      exact packetSend2Wrapped_stands.bind fun _ => ih
  have hsend : ∀ type, Keeps (Stands flag received) (sendAndFlush X type) := by
    intro type
    apply packetSend2Wrapped_stands.bind
    intro _
    apply Keeps.ite _ (.pure ())
    apply Keeps.bind (.modify fun _ hs => hs.congr rfl rfl)
    intro _
    exact Keeps.get.bind fun s => hflush s.outgoing
  apply Keeps.bind (.modify fun _ hs => hs.congr rfl rfl)
  intro _ s hs
  simp only [packetSend2, wp_bind, wp_get]
  rw [wp_ite, wp_set, wp_write]
  exact ⟨fun _ => hs.congr rfl rfl, fun _ => hsend _ _ (hs.congr rfl rfl)⟩

theorem packetEnableDelayedCompress_stands (h : Stands flag received s) :
    Stands true received
      (({ s with afterAuthentication := true }.startDelayedIn X).startDelayedOut X) := by
  have hset : Stands true received { s with afterAuthentication := true } := ⟨rfl, h.received⟩
  have hin : Stands true received ({ s with afterAuthentication := true }.startDelayedIn X) := by
    unfold State.startDelayedIn
    split
    · exact hset.congr rfl rfl
    · exact hset
  unfold State.startDelayedOut
  split
  · exact hin.congr rfl rfl
  · exact hin

/-- **A packet is accepted**: USERAUTH_SUCCESS, and no other type, moves the switch. -/
theorem acceptPacket_stands (h : Stands flag received s) :
    wp (acceptPacket X)
      (fun _ => Stands (flag || s.incomingPacket.head? == some userauthSuccess)
        (received ∨ s.incomingPacket.head? = some userauthSuccess))
      (fun _ => Stands (flag || s.incomingPacket.head? == some userauthSuccess)
        (received ∨ s.incomingPacket.head? = some userauthSuccess)) s := by
  simp only [acceptPacket, wp_bind, wp_get]
  cases s.incomingPacket with
  | nil =>
    rw [wp_throw]
    simpa using h
  | cons type payload =>
    simp only [wp_bind, wp_set, List.head?_cons, Option.some.injEq, Option.some_beq_some]
    have hs : Stands flag received { s with incomingPacket := payload } := h.congr rfl rfl
    by_cases htype : type = userauthSuccess
    · -- the type is valid, and the branch that a server would not take is taken
      subst htype
      rw [if_neg (by decide)]
      simp only [wp_bind, wp_modify, onType]
      rw [if_neg (by decide), if_pos (by decide)]
      simp only [packetEnableDelayedCompress, wp_modify, wp_pure, beq_self_eq_true, Bool.or_true,
        or_true]
      have hrecorded : Stands flag True
          (.record (.received userauthSuccess) { s with incomingPacket := payload }) :=
        ⟨hs.flag, by simp [SuccessReceived, State.record]⟩
      exact (packetEnableDelayedCompress_stands hrecorded).congr rfl rfl
    · have hstays : (flag || type == userauthSuccess) = flag := by simp [htype]
      simp only [hstays, htype, or_false]
      rw [wp_ite, wp_throw]
      refine ⟨fun _ => hs, fun _ => ?_⟩
      have hrecorded : Stands flag received
          (.record (.received type) { s with incomingPacket := payload }) := by
        apply hs.record
        intro ha
        exact htype (Action.received.inj ha)
      have hon : Keeps (Stands flag received) (onType X type) := by
        apply Keeps.ite setNewkeys_stands.1
        rw [if_neg fun h => htype h.1]
        exact .pure ()
      simp only [wp_bind, wp_modify, wp_pure]
      refine wp_mono (hon _ hrecorded) ?_ fun _ _ h' => h'
      exact fun _ _ h' => h'.congr rfl rfl

end Stands

/-! ### The run -/

/-- The switch stands where the packets received have put it. -/
def SetByPeer (s : State Ctx Z) : Prop :=
  s.afterAuthentication = true ↔ SuccessReceived s.history

section SetByPeer

variable {X : Extern Ctx Z} {s s' : State Ctx Z}

theorem Stands.setByPeer {flag : Bool} {received : Prop} (h : Stands flag received s)
    (hsame : flag = true ↔ received) : SetByPeer s := by
  rw [SetByPeer, h.flag, h.received]
  exact hsame

theorem SetByPeer.of_keeps
    (h : ∀ flag received, Keeps (Stands flag received) m) : Keeps SetByPeer m := by
  intro s hs
  have hstands : Stands s.afterAuthentication (SuccessReceived s.history) s := ⟨rfl, .rfl⟩
  apply wp_mono (h _ _ s hstands)
  · exact fun _ _ h' => h'.setByPeer hs
  · exact fun _ _ h' => h'.setByPeer hs

theorem acceptPacket_setByPeer : Keeps SetByPeer (acceptPacket X) := by
  intro s hs
  have hstands : Stands s.afterAuthentication (SuccessReceived s.history) s := ⟨rfl, .rfl⟩
  have hmoved : ((s.afterAuthentication || s.incomingPacket.head? == some userauthSuccess)
      = true) ↔
      (SuccessReceived s.history ∨ s.incomingPacket.head? = some userauthSuccess) := by
    rw [Bool.or_eq_true, beq_iff_eq]
    exact or_congr hs Iff.rfl
  apply wp_mono (acceptPacket_stands hstands)
  · exact fun _ _ h' => h'.setByPeer hmoved
  · exact fun _ _ h' => h'.setByPeer hmoved

theorem packetReadPoll2_setByPeer : Keeps SetByPeer (packetReadPoll2 X) := by
  have hun : Unread (SetByPeer : State Ctx Z → Prop) := fun _ _ _ _ _ _ _ hs => hs
  have hafterMac : Keeps SetByPeer (afterMac X) := by
    apply Keeps.get.bind
    intro s
    apply (countIncoming_keeps hun).bind
    intro _
    apply (stripPadding_keeps hun).bind
    intro _
    apply (uncompressIncoming_keeps hun).bind
    intro _
    exact acceptPacket_setByPeer.bind fun _ => .pure _
  apply (readLength_keeps hun).bind
  intro ready
  apply Keeps.ite _ (.pure none)
  apply (readRest_keeps hun).bind
  intro complete
  apply Keeps.ite _ (.pure none)
  exact ((checkMac_keeps hun).bind fun _ => hafterMac).bind fun _ => .pure _

theorem setByPeer_invariant : PacketInvariant X SetByPeer where
  send type payload := SetByPeer.of_keeps fun _ _ => packetSend_stands type payload
  poll := packetReadPoll2_setByPeer
  feed _ _ hs := hs
  incoming _ _ hs := hs
  random _ _ hs := hs
  derived _ _ _ hs := hs
  record a s ha hs := by
    have hstands : Stands s.afterAuthentication (SuccessReceived s.history) s := ⟨rfl, .rfl⟩
    exact (hstands.record (ha _)).setByPeer hs

/-- In every run the flag tells whether USERAUTH_SUCCESS has been received. -/
theorem run_setByPeer (env : Env Ctx Z) (receive send : Ctx) (inflate deflate : Z)
    (schedule : List Event) (turns : Nat) :
    SetByPeer
      (endState (run env turns) (Conn.start receive send inflate deflate schedule)).packet := by
  apply Keeps.endState (setByPeer_invariant.run turns)
  show false = true ↔ Action.received userauthSuccess ∈ []
  simp

end SetByPeer

/-! ## §3 What the flag is for -/

/-- **Delayed-compression switch.** At the end of every run, and for every packet that is
accepted next, `after_authentication` says whether the server has sent USERAUTH_SUCCESS and
the packet does not set it, exactly when

- the client has sent USERAUTH_SUCCESS as well if the server has, and only then, and
- the packet is not the client's first USERAUTH_SUCCESS. -/
theorem delayedCompress_switch (env : Env Ctx Z) (receive send : Ctx) (inflate deflate : Z)
    (schedule : List Event) (turns : Nat) (packet : Bytes) :
    let t := (endState (run env turns) (Conn.start receive send inflate deflate schedule)).packet
    let t' := endState (acceptPacket env.crypto) { t with incomingPacket := packet }
    ((t.afterAuthentication = true ↔ SuccessSent t.history) ∧
        (t'.afterAuthentication = true → t.afterAuthentication = true)) ↔
      ((SuccessReceived t.history ↔ SuccessSent t.history) ∧
        (packet.head? = some userauthSuccess → SuccessReceived t.history)) := by
  intro t t'
  have hflag : t.afterAuthentication = true ↔ SuccessReceived t.history :=
    run_setByPeer env receive send inflate deflate schedule turns
  have hstands : Stands t.afterAuthentication (SuccessReceived t.history)
      { t with incomingPacket := packet } := ⟨rfl, .rfl⟩
  have hnext : t'.afterAuthentication =
      (t.afterAuthentication || packet.head? == some userauthSuccess) :=
    (wp_endState_both (acceptPacket_stands (X := env.crypto) hstands)).flag
  rw [hnext, Bool.or_eq_true, beq_iff_eq, hflag]
  refine and_congr_right fun _ => ?_
  exact ⟨fun h hpacket => h (.inr hpacket), fun h => Or.rec id h⟩

/-- A client that sends USERAUTH_SUCCESS as its first packet: no keys have been exchanged and
nobody has been authenticated, and the flag is set. -/
theorem delayedCompress_set_by_client :
    let t := (endState (run plainEnv 1) (Conn.start () () () ()
      [.recv (plainPacket userauthSuccess []), .poll])).packet
    t.afterAuthentication = true ∧ ¬ SuccessSent t.history := by
  unfold SuccessSent
  decide +kernel

end Shiesh.Connection
