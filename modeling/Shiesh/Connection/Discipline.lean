import Shiesh.Connection.Refinement

/-!
# Keys and Transcripts of a Connection

What the refinement says about every run of the connection thread, read off its history.

## Main results

- `run_key_discipline`: which keys are installed, and when
- `run_transcript_binding`: what is hashed in a key exchange
-/

namespace Shiesh.Connection

open Shiesh.Lib Shiesh.Transport Shiesh.Kex Shiesh.Auth

variable {Ctx Z : Type}

/-- What has happened on a new connection after `turns` turns of each loop, for a peer and
a channel layer that act as the schedule says. -/
def historyOf (env : Env Ctx Z) (turns : Nat) (s : Conn Ctx Z) : List Action :=
  (endState (run env turns) s).packet.history

/-- The run has been ended by `fatal` in `set_newkeys (MODE_IN)`. -/
def endsWithoutKeys (env : Env Ctx Z) (turns : Nat) (s : Conn Ctx Z) : Prop :=
  ∃ s', run env turns s = .error (.halt noKeys) s'

/-- The history of a run is one that the protocol allows. -/
theorem run_allowed (env : Env Ctx Z) (receive send : Ctx) (inflate deflate : Z)
    (schedule : List Event) (turns : Nat) :
    let s := Conn.start receive send inflate deflate schedule
    ∃ p, Allowed (historyOf env turns s) p ∧
      (endState (run env turns) s).kex.sessionId = (hashes (historyOf env turns s)).head? ∧
      (p = .broken → endsWithoutKeys env turns s) := by
  intro s
  have hrun : wp (run env turns) (fun _ => AtRest) StopOk s :=
    run_spec (start_matches receive send inflate deflate schedule) rfl turns
  simp only [historyOf, endsWithoutKeys, endState]
  cases hr : run env turns s with
  | ok a s' =>
    rw [wp_of_ok hr] at hrun
    obtain ⟨p, hp, h⟩ := hrun
    exact ⟨p, h.tracks.allowed, h.sessionId, fun hb => absurd hb hp.listening.ne_broken⟩
  | error e s' =>
    rw [wp_of_error hr] at hrun
    obtain ⟨p, hallowed, hsession, hbroken⟩ := hrun
    refine ⟨p, hallowed, hsession, fun hb => ⟨s', ?_⟩⟩
    rw [hbroken hb]

/-! ## A client to try them with -/

def plainProposal : Proposal where
  kexAlgs := ascii "diffie-hellman-group1-sha1"
  serverHostKeyAlgs := ascii "ssh-dss"
  encAlgsCtos := ascii "arcfour"
  encAlgsStoc := ascii "arcfour"
  macAlgsCtos := ascii "hmac-md5"
  macAlgsStoc := ascii "hmac-md5"
  compAlgsCtos := ascii "none"
  compAlgsStoc := ascii "none"
  langCtos := []
  langStoc := []

/-- A server that computes nothing: every exponent and every shared secret is 3. -/
def plainEnv : Env Unit Unit where
  crypto := Extern.null
  digests := Digests.null
  bugs := {}
  auth := { findAllowed := fun _ => none, authPasswd := fun _ _ _ => none
            maxLoginAttempts := 1, bugBanner := false }
  clientVersionString := []
  serverVersionString := []
  myproposal := plainProposal
  hostKey _ := some { blob := [], sign := fun _ => [] }
  dhGenerateKey _ _ _ := (3, 3)
  dhComputeKey _ _ _ := some 3

/-- A packet from a client that has no keys yet. -/
def plainPacket (type : UInt8) (payload : Bytes) : Bytes :=
  let padlen := 16 - (payload.length + 6) % 8
  putU32 (UInt32.ofNat (payload.length + 2 + padlen)) ++ [UInt8.ofNat padlen, type] ++
    payload ++ List.replicate padlen 0

/-- KEXINIT, KEXDH_INIT and NEWKEYS, each in a segment of its own. -/
def plainSchedule : List Event :=
  [.recv (plainPacket Ssh2Msg.kexinit (kexProp2buf plainProposal)), .poll,
    .recv (plainPacket Ssh2Msg.kexdhInit (putBignum2 3)), .poll,
    .recv (plainPacket Ssh2Msg.newkeys []), .poll]

def plainStart : Conn Unit Unit := Conn.start () () () () plainSchedule

/-! ## The two disciplines -/

/-- **Key discipline.** In every run

- `set_newkeys` installs the key set that `kex_derive_keys` has produced in the exchange in
  progress;
- the key sets installed in one direction are those derived for it, each once and in order;
- NEWKEYS without a pending key set for MODE_IN ends the connection;
- authentication starts with keys in both directions;
- `session_id` is the hash of the first exchange. -/
theorem run_key_discipline (env : Env Ctx Z) (receive send : Ctx) (inflate deflate : Z)
    (schedule : List Event) (turns : Nat) :
    let s := Conn.start receive send inflate deflate schedule
    let history := historyOf env turns s
    (∀ before after mode keys, history = before ++ .setNewkeys mode keys :: after →
      pending mode before = some keys) ∧
    (∀ mode, installs mode history <+: derivations mode history) ∧
    (∀ before after, history = before ++ .received Ssh2Msg.newkeys :: after →
      pending .modeIn before = none → after = [] ∧ endsWithoutKeys env turns s) ∧
    (∀ before after modeIn modeOut,
      history = before ++ .authenticating modeIn modeOut :: after →
      modeIn.isSome = true ∧ modeOut.isSome = true) ∧
    (endState (run env turns) s).kex.sessionId = (hashes history).head? := by
  intro s history
  obtain ⟨p, (hallowed : Allowed history p), hsession, hbroken⟩ :=
    run_allowed env receive send inflate deflate schedule turns
  refine ⟨?_, ?_, ?_, ?_, hsession⟩
  · intro before after mode keys hat
    exact Allowed.setNewkeys_pending (hat ▸ hallowed)
  · intro mode
    exact ⟨_, (Allowed.derivations_eq hallowed mode).symm⟩
  · intro before after hat hnone
    obtain ⟨hnil, hp⟩ := Allowed.strayNewkeys_last (hat ▸ hallowed) hnone
    exact ⟨hnil, hbroken hp⟩
  · intro before after modeIn modeOut hat
    exact Allowed.authenticating_keyed (hat ▸ hallowed)

/-- The client gets through its exchange. -/
theorem run_key_discipline_plain :
    (installs .modeIn (historyOf plainEnv 2 plainStart)).length = 1 ∧
      installs .modeIn (historyOf plainEnv 2 plainStart) <+:
        derivations .modeIn (historyOf plainEnv 2 plainStart) :=
  ⟨by decide +kernel, (run_key_discipline plainEnv () () () () plainSchedule 2).2.1 .modeIn⟩

/-- **Transcript binding.** In every run each exchange hash is computed from the one KEXINIT
payload received and the one sent in the exchange in progress, and the server sends KEXINIT
and NEWKEYS in turns. -/
theorem run_transcript_binding (env : Env Ctx Z) (receive send : Ctx) (inflate deflate : Z)
    (schedule : List Event) (turns : Nat) :
    let history := historyOf env turns (Conn.start receive send inflate deflate schedule)
    (∀ before after ckexinit skexinit hash,
      history = before ++ .hashed ckexinit skexinit hash :: after →
      rcvdInits (currentExchange before) = [ckexinit] ∧
        sentInits (currentExchange before) = [skexinit]) ∧
    ∃ n midway, kexSends history = alternating n midway := by
  intro history
  obtain ⟨p, (hallowed : Allowed history p), -, -⟩ :=
    run_allowed env receive send inflate deflate schedule turns
  constructor
  · intro before after ckexinit skexinit hash hat
    exact Allowed.hashed_inits (hat ▸ hallowed)
  · obtain ⟨n, midway, hsends, -⟩ := Allowed.kexSends_alternate hallowed
    exact ⟨n, midway, hsends⟩

theorem run_transcript_binding_plain :
    kexSends (historyOf plainEnv 2 plainStart) = [Ssh2Msg.kexinit, Ssh2Msg.newkeys] ∧
      ∃ n midway, kexSends (historyOf plainEnv 2 plainStart) = alternating n midway :=
  ⟨by decide +kernel, (run_transcript_binding plainEnv () () () () plainSchedule 2).2⟩

end Shiesh.Connection
