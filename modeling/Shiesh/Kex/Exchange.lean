import Mathlib.Data.List.DropRight
import Shiesh.Lib.Run
import Shiesh.Transport.State

/-!
# The Key Exchange as a Protocol

What the server's side of a key exchange is, as transitions on the history of a
connection: which action may follow in which phase. Nothing of the code is in here; that
its histories are runs of this system is proved elsewhere.
-/

namespace Shiesh.Kex

open Shiesh.Lib Shiesh.Transport List
open Ssh2Msg (kexinit newkeys)

/-! ## §1 Phases -/

inductive Phase where
  | idle
  | initSent (my : Bytes)
  | initRcvd (peer : Bytes)
  | bothInits (peer my : Bytes)
  | hashed
  | derived (modeIn modeOut : Newkeys)
  | newkeysSent (modeIn modeOut : Newkeys)
  | outKeyed (modeIn : Newkeys)
  | newkeysRcvd (modeIn : Newkeys)
  | keyed
  -- NEWKEYS has come without pending keys
  | broken
  deriving DecidableEq

/-- The derived key set that waits to be installed. -/
def Phase.pending : Phase → Mode → Option Newkeys
  | .derived modeIn _, .modeIn => some modeIn
  | .derived _ modeOut, .modeOut => some modeOut
  | .newkeysSent modeIn _, .modeIn => some modeIn
  | .newkeysSent _ modeOut, .modeOut => some modeOut
  | .outKeyed modeIn, .modeIn => some modeIn
  | .newkeysRcvd modeIn, .modeIn => some modeIn
  | _, _ => none

inductive Step : Phase → Action → Phase → Prop
  -- the two KEXINIT messages, in either order
  | sendInit (e : Emitted) (h : e.type = kexinit) :
      Step .idle (.sent e) (.initSent e.payload)
  | replyInit (peer : Bytes) (e : Emitted) (h : e.type = kexinit) :
      Step (.initRcvd peer) (.sent e) (.bothInits peer e.payload)
  | rcvdInit (payload : Bytes) : Step .idle (.kexinit payload) (.initRcvd payload)
  | rcvdReply (my payload : Bytes) :
      Step (.initSent my) (.kexinit payload) (.bothInits payload my)
  | hash (peer my hash : Bytes) : Step (.bothInits peer my) (.hashed peer my hash) .hashed
  | derive (modeIn modeOut : Newkeys) :
      Step .hashed (.derived modeIn modeOut) (.derived modeIn modeOut)
  -- the two NEWKEYS messages, the server's first
  | sendNewkeys (modeIn modeOut : Newkeys) (e : Emitted) (h : e.type = newkeys) :
      Step (.derived modeIn modeOut) (.sent e) (.newkeysSent modeIn modeOut)
  | installOut (modeIn modeOut : Newkeys) :
      Step (.newkeysSent modeIn modeOut) (.setNewkeys .modeOut modeOut) (.outKeyed modeIn)
  | rcvdNewkeys (modeIn : Newkeys) :
      Step (.outKeyed modeIn) (.received newkeys) (.newkeysRcvd modeIn)
  | installIn (modeIn : Newkeys) :
      Step (.newkeysRcvd modeIn) (.setNewkeys .modeIn modeIn) .keyed
  | finish : Step .keyed .finished .idle
  -- what is not part of an exchange
  | sendOther (p : Phase) (hp : p ≠ .broken) (e : Emitted) (h : e.type ≠ kexinit)
      (h' : e.type ≠ newkeys) : Step p (.sent e) p
  | rcvdOther (p : Phase) (hp : p ≠ .broken) (type : UInt8) (h : type ≠ newkeys) :
      Step p (.received type) p
  | authenticate (modeIn modeOut : Newkeys) :
      Step .idle (.authenticating (some modeIn) (some modeOut)) .idle
  | strayNewkeys (p : Phase) (hp : p ≠ .broken) (h : p.pending .modeIn = none) :
      Step p (.received newkeys) .broken

/-- The histories that the protocol allows. -/
abbrev Allowed (history : List Action) (p : Phase) : Prop := Run Step .idle history p

theorem not_step_broken (a : Action) (p : Phase) : ¬ Step .broken a p := by
  intro h
  cases h <;> contradiction

/-! ## §2 Reading a history -/

/-- The key set for `mode` that `kex_derive_keys` has produced in the exchange in progress
and `set_newkeys (mode)` has not installed yet. -/
def pending (mode : Mode) (history : List Action) : Option Newkeys :=
  history.foldl step none
where
  step (keys : Option Newkeys) : Action → Option Newkeys
    | .derived modeIn modeOut =>
      match mode with
      | .modeIn => some modeIn
      | .modeOut => some modeOut
    | .setNewkeys mode' _ => if mode' = mode then none else keys
    | .finished => none
    | _ => keys

/-- All key sets derived for `mode`. -/
def derivations (mode : Mode) (history : List Action) : List Newkeys :=
  history.filterMap fun
    | .derived modeIn modeOut =>
      match mode with
      | .modeIn => some modeIn
      | .modeOut => some modeOut
    | _ => none

/-- All key sets installed in `mode`. -/
def installs (mode : Mode) (history : List Action) : List Newkeys :=
  history.filterMap fun
    | .setNewkeys mode' keys => if mode' = mode then some keys else none
    | _ => none

/-- The exchange hashes. -/
def hashes (history : List Action) : List Bytes :=
  history.filterMap fun
    | .hashed _ _ hash => some hash
    | _ => none

/-- What happened since an exchange was last finished. -/
def currentExchange (history : List Action) : List Action :=
  history.rtakeWhile (· ≠ .finished)

def rcvdInits (history : List Action) : List Bytes :=
  history.filterMap fun
    | .kexinit payload => some payload
    | _ => none

def sentInits (history : List Action) : List Bytes :=
  history.filterMap fun
    | .sent e => if e.type = kexinit then some e.payload else none
    | _ => none

/-- The types of the KEXINIT and NEWKEYS messages sent. -/
def kexSends (history : List Action) : List UInt8 :=
  history.filterMap fun
    | .sent e =>
      if e.type = kexinit ∨ e.type = newkeys then some e.type else none
    | _ => none

theorem pending_snoc (mode : Mode) (history : List Action) (a : Action) :
    pending mode (history ++ [a]) = pending.step mode (pending mode history) a := by
  simp [pending]

theorem currentExchange_snoc (history : List Action) {a : Action} (h : a ≠ .finished) :
    currentExchange (history ++ [a]) = currentExchange history ++ [a] :=
  rtakeWhile_concat_pos _ _ _ (by simpa using h)

theorem currentExchange_finished (history : List Action) :
    currentExchange (history ++ [.finished]) = [] :=
  rtakeWhile_concat_neg _ _ _ (by simp)

/-! ## §3 Keys -/

variable {p : Phase} {after before history : List Action}

/-- MODE_OUT is keyed first: nothing is pending for it when nothing is for MODE_IN. -/
theorem Phase.pending_eq_none (h : p.pending .modeIn = none) (mode : Mode) :
    p.pending mode = none := by
  cases mode with
  | modeIn => exact h
  | modeOut => cases p <;> first | rfl | cases h

/-- The history and the phase tell the same about pending keys. -/
theorem Allowed.pending_eq (h : Allowed history p)
    (mode : Mode) : pending mode history = p.pending mode := by
  refine Run.invariant (fun history p => ∀ mode, pending mode history = p.pending mode)
    (fun _ => rfl) ?_ h mode
  intro history p a p' ih hstep mode
  rw [pending_snoc, ih mode]
  cases hstep with
  | strayNewkeys p _ hin => exact Phase.pending_eq_none hin mode
  | sendOther => rfl
  | rcvdOther => rfl
  | _ => cases mode <;> rfl

/-- Every derived key set has been installed, in order, except for the pending one. -/
theorem Allowed.derivations_eq (h : Allowed history p) (mode : Mode) :
    derivations mode history = installs mode history ++ (p.pending mode).toList := by
  refine Run.invariant (fun history p => derivations mode history =
    installs mode history ++ (p.pending mode).toList) rfl ?_ h
  intro history p a p' ih hstep
  simp only [derivations, installs, filterMap_append] at ih ⊢
  rw [ih]
  cases hstep with
  | strayNewkeys p _ hin =>
    rw [Phase.pending_eq_none hin mode]
    simp [Phase.pending]
  | sendOther => simp
  | rcvdOther => simp
  | _ => cases mode <;> simp [Phase.pending]

/-- A key set is installed only while it is pending. -/
theorem Allowed.setNewkeys_pending {mode : Mode} {k : Newkeys}
    (h : Allowed (before ++ .setNewkeys mode k :: after) p) :
    pending mode before = some k := by
  obtain ⟨q, r, hbefore, hstep, -⟩ := h.at_position
  rw [Allowed.pending_eq hbefore]
  cases hstep <;> rfl

/-- Behind NEWKEYS without pending keys there is nothing. -/
theorem Allowed.strayNewkeys_last (h : Allowed (before ++ .received newkeys :: after) p)
    (hpending : pending .modeIn before = none) : after = [] ∧ p = .broken := by
  obtain ⟨q, r, hbefore, hstep, hafter⟩ := h.at_position
  rw [Allowed.pending_eq hbefore] at hpending
  have hr : r = .broken := by
    cases hstep with
    | rcvdNewkeys => cases hpending
    | rcvdOther _ _ h => contradiction
    | strayNewkeys => rfl
  subst hr
  have hnil := hafter.eq_nil_of_final not_step_broken
  subst hnil
  exact ⟨rfl, hafter.eq_of_nil⟩

theorem Allowed.authenticating_keyed {modeIn modeOut : Option Newkeys}
    (h : Allowed (before ++ .authenticating modeIn modeOut :: after) p) :
    modeIn.isSome = true ∧ modeOut.isSome = true := by
  obtain ⟨q, r, -, hstep, -⟩ := h.at_position
  cases hstep
  exact ⟨rfl, rfl⟩

/-! ## §4 KEXINIT payloads -/

/-- The KEXINIT payloads received and sent so far in the exchange that is in this phase. -/
def Phase.Inits : Phase → List Bytes → List Bytes → Prop
  | .idle, rcvd, sent => rcvd = [] ∧ sent = []
  | .initSent my, rcvd, sent => rcvd = [] ∧ sent = [my]
  | .initRcvd peer, rcvd, sent => rcvd = [peer] ∧ sent = []
  | .bothInits peer my, rcvd, sent => rcvd = [peer] ∧ sent = [my]
  | _, _, _ => True

theorem Allowed.inits (h : Allowed history p) :
    p.Inits (rcvdInits (currentExchange history)) (sentInits (currentExchange history)) := by
  refine Run.invariant (fun history p => p.Inits (rcvdInits (currentExchange history))
    (sentInits (currentExchange history))) ⟨rfl, rfl⟩ ?_ h
  intro history p a p' ih hstep
  by_cases hfin : a = .finished
  · subst hfin
    cases hstep
    rw [currentExchange_finished]
    exact ⟨rfl, rfl⟩
  · rw [currentExchange_snoc _ hfin]
    simp only [rcvdInits, sentInits, filterMap_append] at ih ⊢
    cases hstep with
    | finish => contradiction
    | sendInit e he => simpa [Phase.Inits, he] using ih
    | replyInit peer e he => simpa [Phase.Inits, he] using ih
    | rcvdInit payload => simpa [Phase.Inits] using ih
    | rcvdReply my payload => simpa [Phase.Inits] using ih
    | sendOther _ _ e he => simpa [he] using ih
    | rcvdOther => simpa using ih
    | authenticate => simpa using ih
    | _ => trivial

/-- A hash is computed from the one payload of each side. -/
theorem Allowed.hashed_inits {ckexinit skexinit hash : Bytes}
    (h : Allowed (before ++ .hashed ckexinit skexinit hash :: after) p) :
    rcvdInits (currentExchange before) = [ckexinit] ∧
      sentInits (currentExchange before) = [skexinit] := by
  obtain ⟨q, r, hbefore, hstep, -⟩ := h.at_position
  cases hstep
  exact Allowed.inits hbefore

/-- Has the server sent KEXINIT, but not yet NEWKEYS? -/
def Phase.midway : Phase → Bool
  | .initSent _ | .bothInits _ _ | .hashed | .derived _ _ => true
  | _ => false

/-- `n` pairs of KEXINIT and NEWKEYS, and perhaps a KEXINIT -/
def alternating (n : Nat) (midway : Bool) : List UInt8 :=
  (List.replicate n [kexinit, newkeys]).flatten ++
    if midway then [kexinit] else []

theorem alternating_kexinit (n : Nat) : alternating n false ++ [kexinit] = alternating n true := by
  simp [alternating]

theorem alternating_newkeys (n : Nat) :
    alternating n true ++ [newkeys] = alternating (n + 1) false := by
  simp [alternating, replicate_succ']

theorem Allowed.kexSends_alternate (h : Allowed history p) :
    ∃ n midway, kexSends history = alternating n midway ∧
      (p ≠ .broken → midway = p.midway) := by
  refine Run.invariant (fun history p => ∃ n midway, kexSends history = alternating n midway ∧
      (p ≠ .broken → midway = p.midway)) ⟨0, false, rfl, fun _ => rfl⟩ ?_ h
  rintro history p a p' ⟨n, midway, hsends, hmid⟩ hstep
  have hsnoc : kexSends (history ++ [a]) = alternating n midway ++ kexSends [a] := by
    rw [← hsends]
    simp [kexSends]
  rw [hsnoc]
  have hkeep : kexSends [a] = [] → p ≠ .broken → (p' ≠ .broken → p'.midway = p.midway) →
      ∃ n' midway', alternating n midway ++ kexSends [a] = alternating n' midway' ∧
        (p' ≠ .broken → midway' = p'.midway) := by
    intro hnone hp hsame
    exact ⟨n, midway, by rw [hnone, append_nil], fun hp' => by rw [hmid hp, hsame hp']⟩
  cases hstep with
  | sendInit e he =>
    have hm : midway = false := hmid (by simp)
    refine ⟨n, true, ?_, fun _ => rfl⟩
    rw [hm, ← alternating_kexinit]
    simp [kexSends, he]
  | replyInit peer e he =>
    have hm : midway = false := hmid (by simp)
    refine ⟨n, true, ?_, fun _ => rfl⟩
    rw [hm, ← alternating_kexinit]
    simp [kexSends, he]
  | sendNewkeys modeIn modeOut e he =>
    have hm : midway = true := hmid (by simp)
    refine ⟨n + 1, false, ?_, fun _ => rfl⟩
    rw [hm, ← alternating_newkeys]
    simp [kexSends, he]
  | sendOther _ hp e he he' => exact hkeep (by simp [kexSends, he, he']) hp fun _ => rfl
  | rcvdOther _ hp => exact hkeep rfl hp fun _ => rfl
  | strayNewkeys _ hp => exact hkeep rfl hp (fun h => absurd rfl h)
  | _ => exact hkeep rfl (by simp) fun _ => rfl

end Shiesh.Kex
