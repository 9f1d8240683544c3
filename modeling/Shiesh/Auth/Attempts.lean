import Shiesh.Auth.Soundness

/-!
# Login Attempts

How many requests the authentication phase processes, and how often it asks for a password to be
checked, before it ends.

A turn of the dispatcher is cut in two at the call of `auth_password`: `upToPassword` is the part
before it, and `dispatchStep_eq` says that the turn is this part, the call, and the reply.

The counters of the context bound both numbers. A request that fails costs a failure, the first one
apart when its method is "none", and the phase ends with the last failure that is allowed.
-/

namespace Shiesh.Auth

open Shiesh.Lib AuthState

/-! ## §1 The call of `auth_password` -/

/-- `userauth_passwd` up to the call, with the password to be checked if there is one. -/
def passwdUpToCall : AuthM (Option Bytes) := do
  let change ← reading packetGetChar
  let password ← reading packetGetString
  if change ≠ 0 then do
    let _ ← reading packetGetString
    reading packetCheckEom
    pure none
  else do
    reading packetCheckEom
    pure (some password)

/-- The method of a request up to the call; a request without the call gets its reply here. -/
def methodUpToCall (env : AuthEnv) (method : Bytes) : AuthM (Option (Bytes × Bytes)) := do
  match authmethodLookup (← get) method with
  | some .passwd => do
    match ← passwdUpToCall with
    | some password => pure (some (password, method))
    | none => do
      userauthFinish env false method
      pure none
  | some .none => do
    let authenticated ← userauthNone
    userauthFinish env authenticated method
    pure none
  | none => do
    userauthFinish env false method
    pure none

def requestUpToCall (env : AuthEnv) : AuthM (Option (Bytes × Bytes)) := do
  let user ← reading packetGetString
  let service ← reading packetGetString
  let method ← reading packetGetString
  setupAuthctxt env user service
  modify fun s => { s with postponed := false, serverCausedFailure := false }
  methodUpToCall env (cstr method)

/-- One turn of `dispatch_run` up to the call of `auth_password`. -/
def upToPassword (env : AuthEnv) (p : Received) : AuthM (Option (Bytes × Bytes)) := do
  modify fun s => { s with incomingPacket := p.payload }
  if ← reading (packetReadPoll p.type) then
    match (← get).dispatch p.type with
    | .userauthRequest => requestUpToCall env
    | .serviceRequest => do
      inputServiceRequest
      pure none
    | .ignored => pure none
    | .unexpected => do
      unexpectedMsg p.seqnr
      pure none
  else
    pure none

/-- The call and the reply. -/
def checkPassword (env : AuthEnv) : Option (Bytes × Bytes) → AuthM Unit
  | some (password, method) => do
    let authenticated ← authPassword env password
    userauthFinish env authenticated method
  | none => pure ()

theorem userauthPasswd_eq (env : AuthEnv) :
    userauthPasswd env = (do
      match ← passwdUpToCall with
      | some password => authPassword env password
      | none => pure false) := by
  simp only [userauthPasswd, passwdUpToCall, bind_assoc]
  refine bind_congr fun change => bind_congr fun password => ?_
  split
  case isTrue => simp only [bind_assoc, pure_bind]
  case isFalse => simp only [bind_assoc, pure_bind]

theorem tryMethod_eq (env : AuthEnv) (method : Bytes) :
    tryMethod env method = methodUpToCall env method >>= checkPassword env := by
  simp only [tryMethod, methodUpToCall, bind_assoc]
  refine bind_congr fun s => ?_
  cases authmethodLookup s method with
  | none => simp only [bind_assoc, pure_bind, checkPassword, bind_pure_unit]
  | some m =>
    cases m with
    | none => simp only [Authmethod.userauth, bind_assoc, pure_bind, checkPassword, bind_pure_unit]
    | passwd =>
      simp only [Authmethod.userauth, userauthPasswd_eq, bind_assoc]
      refine bind_congr fun password => ?_
      cases password with
      | none => simp only [bind_assoc, pure_bind, checkPassword, bind_pure_unit]
      | some password => simp only [pure_bind, checkPassword]

/-- **A turn** is what comes before the call, the call, and the reply. -/
theorem dispatchStep_eq (env : AuthEnv) (p : Received) :
    dispatchStep env p = upToPassword env p >>= checkPassword env := by
  simp only [dispatchStep, upToPassword, bind_assoc]
  refine bind_congr fun _ => bind_congr fun returned => ?_
  cases returned with
  | false => simp only [Bool.false_eq_true, if_false, pure_bind, checkPassword]
  | true =>
    simp only [if_true, dispatchMsg, bind_assoc]
    refine bind_congr fun s => ?_
    cases s.dispatch p.type with
    | userauthRequest =>
      simp only [inputUserauthRequest, requestUpToCall, bind_assoc, tryMethod_eq]
    | serviceRequest => simp only [bind_assoc, pure_bind, checkPassword, bind_pure_unit]
    | ignored => simp only [pure_bind, checkPassword]
    | unexpected => simp only [bind_assoc, pure_bind, checkPassword, bind_pure_unit]

/-- The packet is a request, and is given to `input_userauth_request`. -/
def handlesRequest (p : Received) (s : AuthState) : Bool := s.dispatch p.type = .userauthRequest

def callsAuthPassword (env : AuthEnv) (p : Received) (s : AuthState) : Bool :=
  match upToPassword env p s with
  | .ok (some _) _ => true
  | _ => false

/-! ## §2 What a turn does to the counters -/

/-- What the reply to a request that is not authenticated costs. -/
def penalty (attempt : Nat) (method : Bytes) : Nat :=
  if attempt > 1 ∨ method ≠ ascii "none" then 1 else 0

/-- The reply: success, or a failure that is paid for and allowed. -/
theorem userauthFinish_counts (env : AuthEnv) (authenticated : Bool) (method : Bytes)
    (s : AuthState) (hpost : s.postponed = false) (hserver : s.serverCausedFailure = false) :
    wp (userauthFinish env authenticated method)
      (fun _ s' => s'.success = false → s'.attempt = s.attempt ∧
        s'.failures = s.failures + penalty s.attempt method ∧
        s'.failures < env.maxLoginAttempts)
      any s := by
  simp only [userauthFinish, wp_bind, wp_get, wp_ite, wp_throw, hpost, hserver, packetSend,
    wp_modify, wp_pure]
  refine ⟨fun _ => trivial, fun _ => ⟨by simp, fun _ => ⟨fun _ => by simp, fun _ => ?_⟩⟩⟩
  constructor
  · intro hpaid
    refine ⟨fun _ => trivial, fun hallowed _ => ⟨trivial, ?_, not_le.mp hallowed⟩⟩
    rw [penalty, if_pos hpaid.2]
  · intro hfree
    have hfree' : ¬(s.attempt > 1 ∨ method ≠ ascii "none") := fun h => hfree ⟨trivial, h⟩
    refine ⟨fun _ => trivial, fun hallowed _ => ⟨trivial, ?_, not_le.mp hallowed⟩⟩
    rw [penalty, if_neg hfree', add_zero]

/-- Nothing but the counters is looked at: one more request, nothing paid yet. -/
structure Requested (s s' : AuthState) : Prop where
  attempt : s'.attempt = s.attempt + 1
  failures : s'.failures = s.failures
  postponed : s'.postponed = false
  server : s'.serverCausedFailure = false

variable {s s' : AuthState} {env : AuthEnv} {p : Received} {n : Nat}

theorem Requested.reading {t : AuthState} (h : Requested s s') (hsame : SameButReading s' t) :
    Requested s t := by
  rw [hsame]
  exact { h with }

/-- The turn is over, the phase goes on, and a request has been paid for. -/
structure Paid (env : AuthEnv) (s s' : AuthState) : Prop where
  attempt : s'.attempt = s.attempt + 1
  failures : s.failures ≤ s'.failures
  again : s.attempt ≠ 0 → s'.failures = s.failures + 1
  allowed : s'.failures < env.maxLoginAttempts

theorem finish_paid (h : Requested s s') (authenticated : Bool) (method : Bytes) :
    wp (userauthFinish env authenticated method)
      (fun _ t => t.success = false → Paid env s t ∧
        (method ≠ ascii "none" → t.failures = s.failures + 1))
      any s' := by
  apply wp_mono (userauthFinish_counts env authenticated method s' h.postponed h.server)
  · intro _ t ht hgoes
    obtain ⟨hattempt, hfailures, hallowed⟩ := ht hgoes
    rw [h.attempt] at hattempt
    rw [h.attempt, h.failures, penalty] at hfailures
    refine ⟨⟨hattempt, ?_, fun hagain => ?_, hallowed⟩, fun hmethod => ?_⟩
    · omega
    · rw [if_pos (.inl (by omega))] at hfailures
      exact hfailures
    · rw [if_pos (.inr hmethod)] at hfailures
      exact hfailures
  · exact fun _ _ _ => trivial

theorem setupAuthctxt_counts (env : AuthEnv) (rawUser rawService : Bytes) (s : AuthState) :
    wp (setupAuthctxt env rawUser rawService)
      (fun _ s' => s'.attempt = s.attempt + 1 ∧ s'.failures = s.failures) any s := by
  simp only [setupAuthctxt, wp_bind, wp_get, wp_set, wp_ite, wp_modify, wp_throw, wp_pure]
  refine ⟨fun _ => ?_, fun _ => ⟨fun _ => trivial, fun _ => ⟨trivial, trivial⟩⟩⟩
  refine wp_mono_total (userauthBanner_spec env _) fun _ s' hs' => ?_
  rw [hs'.1]
  exact ⟨rfl, rfl⟩

theorem passwdUpToCall_spec (s : AuthState) :
    wp passwdUpToCall (fun _ s' => SameButReading s s') any s := by
  simp only [passwdUpToCall, wp_bind]
  refine wp_reading (fun change b1 _ => ?_) fun _ _ => trivial
  refine wp_reading (fun password b2 _ => ?_) fun _ _ => trivial
  rw [wp_ite, wp_bind, wp_bind]
  constructor
  · intro _
    refine wp_reading (fun _ b3 _ => ?_) fun _ _ => trivial
    rw [wp_bind]
    exact wp_reading (fun _ b4 _ => (wp_pure _).mpr rfl) fun _ _ => trivial
  · intro _
    exact wp_reading (fun _ b3 _ => (wp_pure _).mpr rfl) fun _ _ => trivial

/-- What is known of a request at the call, or at its end when there is no call. -/
structure Cut (env : AuthEnv) (s : AuthState) (r : Option (Bytes × Bytes)) (s' : AuthState) :
    Prop where
  ends : r = none → s'.success = false → Paid env s s'
  calls : ∀ password method, r = some (password, method) →
    method = ascii "password" ∧ Requested s s'

theorem methodUpToCall_cut (h : Requested s s')
    (method : Bytes) : wp (methodUpToCall env method) (Cut env s) any s' := by
  have hfinish : ∀ (authenticated : Bool) (t : AuthState), SameButReading s' t →
      wp (do
        userauthFinish env authenticated method
        pure none) (Cut env s) any t := by
    intro authenticated t ht
    refine wp_seq_any (finish_paid (h.reading ht) authenticated method) ?_
    intro _ t' ht'
    rw [wp_pure]
    exact ⟨fun _ hgoes => (ht' hgoes).1, fun _ _ hsome => by cases hsome⟩
  simp only [methodUpToCall, wp_bind, wp_get]
  cases hm : authmethodLookup s' method with
  | none => exact hfinish false s' (.refl _)
  | some m =>
    cases m with
    | none =>
      refine wp_seq_any (userauthNone_spec s') fun authenticated t ht => ?_
      exact hfinish authenticated t ht.2
    | passwd =>
      refine wp_seq_any (passwdUpToCall_spec s') fun password t ht => ?_
      cases password with
      | none => exact hfinish false t ht
      | some password =>
        rw [wp_pure]
        refine ⟨fun hnone => (by cases hnone), fun _ _ hsome => ?_⟩
        cases hsome
        exact ⟨authmethodLookup_name hm, h.reading ht⟩

theorem requestUpToCall_cut (env : AuthEnv) (hattempt : s'.attempt = s.attempt)
    (hfailures : s'.failures = s.failures) : wp (requestUpToCall env) (Cut env s) any s' := by
  simp only [requestUpToCall, wp_bind]
  refine wp_reading (fun user b1 _ => ?_) fun _ _ => trivial
  refine wp_reading (fun service b2 _ => ?_) fun _ _ => trivial
  refine wp_reading (fun method b3 _ => ?_) fun _ _ => trivial
  refine wp_weaken (setupAuthctxt_counts env user service _) fun _ t ht => ?_
  rw [wp_modify]
  apply methodUpToCall_cut
  refine ⟨?_, ?_, rfl, rfl⟩
  · show t.attempt = s.attempt + 1
    rw [ht.1, ← hattempt]
  · show t.failures = s.failures
    rw [ht.2, ← hfailures]

/-- What is known of a turn: only a request touches the counters. -/
structure Turn (env : AuthEnv) (p : Received) (s s' : AuthState) : Prop where
  request : handlesRequest p s = true → Paid env s s'
  other : handlesRequest p s = false → s'.attempt = s.attempt ∧ s'.failures = s.failures

/-- As `Cut`, for a whole turn. -/
structure TurnCut (env : AuthEnv) (p : Received) (s : AuthState) (r : Option (Bytes × Bytes))
    (s' : AuthState) : Prop where
  ends : r = none → s'.success = false → Turn env p s s'
  calls : ∀ password method, r = some (password, method) →
    handlesRequest p s = true ∧ method = ascii "password" ∧ Requested s s'

theorem TurnCut.of_request
    {r : Option (Bytes × Bytes)} (hrequest : handlesRequest p s = true) (h : Cut env s r s') :
    TurnCut env p s r s' where
  ends hnone hgoes :=
    ⟨fun _ => h.ends hnone hgoes, fun hother => by cases hrequest.symm.trans hother⟩
  calls password method hsome := ⟨hrequest, h.calls password method hsome⟩

theorem TurnCut.of_other
    (hother : handlesRequest p s = false) (hattempt : s'.attempt = s.attempt)
    (hfailures : s'.failures = s.failures) : TurnCut env p s none s' where
  ends _ _ := ⟨fun hrequest => (by cases hother.symm.trans hrequest),
    fun _ => ⟨hattempt, hfailures⟩⟩
  calls _ _ hsome := by cases hsome

theorem upToPassword_cut (env : AuthEnv) (p : Received) (s : AuthState) :
    wp (upToPassword env p) (TurnCut env p s) any s := by
  simp only [upToPassword, wp_bind, wp_modify]
  unfold reading
  rw [wp_zoom]
  refine wp_weaken (packetReadPoll_spec p.type p.payload) ?_
  intro returned b hreturned
  cases returned with
  | false =>
    -- the transport layer keeps the packet, which is then not a request
    have hother : handlesRequest p s = false := by
      obtain ⟨hservice, hrequest⟩ := hreturned.2 rfl
      simp only [handlesRequest, dispatch, if_neg hservice, if_neg hrequest]
      decide
    exact (wp_pure _).mpr (.of_other hother rfl rfl)
  | true =>
    simp only [if_true, wp_bind, wp_get]
    have hdispatch : ∀ b b', ({ s with incomingPacket := b } : AuthState).dispatch p.type = b' →
        handlesRequest p s = decide (b' = .userauthRequest) := by
      intro b b' h
      rw [handlesRequest, ← h]
      rfl
    cases hd : ({ s with incomingPacket := b } : AuthState).dispatch p.type with
    | userauthRequest =>
      refine wp_weaken (requestUpToCall_cut env (s := s) rfl rfl) ?_
      exact fun _ _ hcut => .of_request (hdispatch _ _ hd) hcut
    | serviceRequest =>
      refine wp_seq_any (inputServiceRequest_spec _) fun _ s' hs' => ?_
      rw [wp_pure, hs'.2.2]
      exact .of_other (hdispatch _ _ hd) rfl rfl
    | ignored => exact (wp_pure _).mpr (.of_other (hdispatch _ _ hd) rfl rfl)
    | unexpected =>
      simp only [unexpectedMsg, packetSend, wp_bind, wp_modify, wp_pure]
      exact .of_other (hdispatch _ _ hd) rfl rfl

/-- **What a turn does to the counters**, when the phase goes on after it. -/
theorem dispatchStep_counts (env : AuthEnv) (p : Received) (s : AuthState) :
    wp (dispatchStep env p)
      (fun _ s' => s'.success = false → Turn env p s s' ∧
        (callsAuthPassword env p s = true → s'.failures = s.failures + 1))
      any s := by
  rw [dispatchStep_eq, wp_bind]
  have hcut := upToPassword_cut env p s
  apply wp_intro
  · intro r t hrun
    replace hcut := (wp_of_ok hrun).mp hcut
    cases r with
    | none =>
      refine (wp_pure _).mpr fun hgoes => ⟨hcut.ends rfl hgoes, fun hcalls => ?_⟩
      rw [callsAuthPassword, hrun] at hcalls
      cases hcalls
    | some call =>
      obtain ⟨hrequest, hmethod, hrequested⟩ := hcut.calls call.1 call.2 rfl
      rw [checkPassword]
      refine wp_seq_any (authPassword_spec env call.1 t) fun authenticated t' ht' => ?_
      rw [ht'.1]
      refine wp_weaken (finish_paid hrequested authenticated call.2) ?_
      intro _ t'' ht'' hgoes
      obtain ⟨hpaid, hfailed⟩ := ht'' hgoes
      refine ⟨⟨fun _ => hpaid, fun hother => ?_⟩, fun _ => hfailed ?_⟩
      · cases hrequest.symm.trans hother
      · rw [hmethod]
        decide
  · exact fun _ _ _ => trivial

/-- A password is only asked for by a request. -/
theorem handles_of_calls (h : callsAuthPassword env p s = true) : handlesRequest p s = true := by
  have hcut := upToPassword_cut env p s
  unfold callsAuthPassword at h
  split at h
  case h_1 call t hrun => exact (((wp_of_ok hrun).mp hcut).calls call.1 call.2 rfl).1
  case h_2 => cases h

/-! ## §3 The bound -/

/-- After `n` requests, while the phase goes on. -/
structure Requests (env : AuthEnv) (n : Nat) (s : AuthState) : Prop where
  attempt : s.attempt = n
  paid : n ≤ s.failures + 1
  allowed : s.failures < env.maxLoginAttempts

theorem Requests.le (h : Requests env n s) : n ≤ env.maxLoginAttempts :=
  h.paid.trans h.allowed

theorem requests_step (n : Nat) (p : Received) (s : AuthState) (h : Requests env n s) :
    n + (if handlesRequest p s then 1 else 0) ≤ env.maxLoginAttempts + 1 ∧
      wp (dispatchStep env p)
        (fun _ s' => s'.success = false →
          Requests env (n + if handlesRequest p s then 1 else 0) s')
        any s := by
  have hpaid := h.paid
  have hallowed := h.allowed
  constructor
  · split <;> omega
  apply wp_weaken (dispatchStep_counts env p s) ?_
  intro _ s' hs' hgoes
  obtain ⟨hturn, -⟩ := hs' hgoes
  cases hrequest : handlesRequest p s with
  | true =>
    -- the first request may be free, any other one costs a failure
    obtain ⟨hattempt, hkept, hagain, hallowed'⟩ := hturn.request hrequest
    rw [h.attempt] at hattempt hagain
    rw [if_pos rfl]
    refine ⟨hattempt, ?_, hallowed'⟩
    by_cases hfirst : n = 0
    · omega
    · have := hagain hfirst
      omega
  | false =>
    obtain ⟨hattempt, hfailures⟩ := hturn.other hrequest
    rw [h.attempt] at hattempt
    rw [if_neg Bool.false_ne_true]
    exact ⟨hattempt, by omega, by omega⟩

/-- After `n` calls of `auth_password`, while the phase goes on. -/
structure Calls (env : AuthEnv) (n : Nat) (s : AuthState) : Prop where
  paid : n ≤ s.failures
  allowed : s.failures < env.maxLoginAttempts

theorem Calls.lt (h : Calls env n s) : n < env.maxLoginAttempts :=
  h.paid.trans_lt h.allowed

theorem calls_step (n : Nat) (p : Received) (s : AuthState) (h : Calls env n s) :
    n + (if callsAuthPassword env p s then 1 else 0) ≤ env.maxLoginAttempts ∧
      wp (dispatchStep env p)
        (fun _ s' => s'.success = false →
          Calls env (n + if callsAuthPassword env p s then 1 else 0) s')
        any s := by
  have hpaid := h.paid
  have hallowed := h.allowed
  constructor
  · split <;> omega
  apply wp_weaken (dispatchStep_counts env p s) ?_
  intro _ s' hs' hgoes
  obtain ⟨hturn, hcall⟩ := hs' hgoes
  cases hcalls : callsAuthPassword env p s with
  | true =>
    have hrequest := hturn.request (handles_of_calls hcalls)
    have hcost := hcall hcalls
    rw [if_pos rfl]
    exact ⟨by omega, hrequest.allowed⟩
  | false =>
    rw [if_neg Bool.false_ne_true]
    cases hrequest : handlesRequest p s with
    | true =>
      have hkept := (hturn.request hrequest).failures
      exact ⟨by omega, (hturn.request hrequest).allowed⟩
    | false =>
      have hfailures := (hturn.other hrequest).2
      exact ⟨by omega, by omega⟩

/-- **Login attempts are bounded**: whatever the client sends, a phase that allows `m` failures
handles at most `m + 1` requests and asks for at most `m` passwords to be checked. -/
theorem login_attempts_bounded (env : AuthEnv) (hm : 1 ≤ env.maxLoginAttempts)
    (packets : List Received) :
    hitsUntil (dispatchStep env) success handlesRequest packets {} ≤
        env.maxLoginAttempts + 1 ∧
      hitsUntil (dispatchStep env) success (callsAuthPassword env) packets {} ≤
        env.maxLoginAttempts := by
  constructor
  · have hcount := hitsUntil_le (fun _ _ h => h.le.trans (Nat.le_succ _)) requests_step packets 0
      {} ⟨rfl, Nat.zero_le _, hm⟩
    rwa [zero_add] at hcount
  · have hcount := hitsUntil_le (fun _ _ h => h.lt.le) calls_step packets 0 {} ⟨Nat.zero_le _, hm⟩
    rwa [zero_add] at hcount

/-- A server that knows nobody and allows one failure. -/
def strictEnv : AuthEnv where
  findAllowed _ := none
  authPasswd _ _ _ := some false
  maxLoginAttempts := 1
  bugBanner := false

/-- A request of the method `method`, with what the method reads. -/
def requestPacket (method rest : Bytes) : Received :=
  ⟨⟨Ssh2Msg.userauthRequest, putString (ascii "joe") ++ putString (ascii "ssh-connection") ++
    putString method ++ rest⟩, 0⟩

/-- A request "none" that is free and a password that is not: both bounds are reached, and the
last packet is not read. -/
theorem login_attempts_bounded_reached :
    let packets := [⟨⟨Ssh2Msg.serviceRequest, putString (ascii "ssh-userauth")⟩, 0⟩,
      requestPacket (ascii "none") [],
      requestPacket (ascii "password") (0 :: putString (ascii "pw")),
      requestPacket (ascii "none") []]
    let requests := hitsUntil (dispatchStep strictEnv) success handlesRequest packets {}
    let calls := hitsUntil (dispatchStep strictEnv) success
      (callsAuthPassword strictEnv) packets {}
    requests = 2 ∧ calls = 1 ∧ requests ≤ strictEnv.maxLoginAttempts + 1 ∧
      calls ≤ strictEnv.maxLoginAttempts :=
  ⟨by decide +kernel, by decide +kernel, login_attempts_bounded strictEnv (by decide) _⟩

end Shiesh.Auth
