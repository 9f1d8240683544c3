import Shiesh.Auth.Model

/-!
# Authentication Soundness

The server sends `SSH2_MSG_USERAUTH_SUCCESS` only at the end of a proper login.
-/

namespace Shiesh.Auth

open Shiesh.Lib List
open Ssh2Msg (serviceRequest userauthRequest userauthSuccess)

/-! ## §1 Logins -/

/-- The packet is a SERVICE_REQUEST that the server accepts. -/
def AcceptsUserauth (p : Received) : Prop :=
  p.type = serviceRequest ∧
    ∃ service, packetGetString p.payload = .ok service [] ∧ cstr service = ascii "ssh-userauth"

/-- A USERAUTH_REQUEST: user after cutting, service, method, and the rest of the packet. -/
structure Request where
  user : Bytes
  service : Bytes
  method : Bytes
  body : Bytes

def readRequest : Get (Bytes × Bytes × Bytes) := do
  let user ← packetGetString
  let service ← packetGetString
  let method ← packetGetString
  pure (user, service, method)

def parseRequest (payload : Bytes) : Option Request :=
  match readRequest payload with
  | .ok (user, service, method) body =>
    some ⟨(splitUser user).1, cstr service, cstr method, body⟩
  | .error _ _ => none

/-- The password of the body of a "password" request whose change flag is zero. -/
def passwordOf (body : Bytes) : Option Bytes :=
  match (do
    let change ← packetGetChar
    let password ← packetGetString
    pure (change, password) : Get (UInt8 × Bytes)) body with
  | .ok (0, password) [] => some (cstr password)
  | _ => none

def isRequest (p : Received) : Bool := p.type == userauthRequest

/-- The requests among `packets` all carry this user and service. -/
def AllFrom (user service : Bytes) (packets : List Received) : Prop :=
  ∀ p ∈ packets.filter isRequest,
    ∃ r, parseRequest p.payload = some r ∧ r.user = user ∧ r.service = service

/-- **A login**: the packets end with a password request that the database accepts for
the user of the first request behind the accepted service request. -/
def Login (env : AuthEnv) (packets : List Received) : Prop :=
  ∃ before svc between last user password,
    packets = before ++ svc :: (between ++ [last]) ∧
    (∀ p ∈ before, ¬ AcceptsUserauth p) ∧ AcceptsUserauth svc ∧
    AllFrom user (ascii "ssh-connection") (between ++ [last]) ∧
    (env.findAllowed user).isSome = true ∧
    isRequest last = true ∧
    (∃ r, parseRequest last.payload = some r ∧ r.method = ascii "password" ∧
      passwordOf r.body = some password) ∧
    password ≠ [] ∧
    env.authPasswd ((between ++ [last]).countP isRequest) user password = some true

/-- No success among the packets sent. -/
def NoSuccess (sent : List Packet) : Prop := ∀ p ∈ sent, p.type ≠ userauthSuccess

theorem NoSuccess.append {a b : List Packet} (ha : NoSuccess a) (hb : NoSuccess b) :
    NoSuccess (a ++ b) := by
  intro p hp
  rcases mem_append.mp hp with hp | hp
  · exact ha p hp
  · exact hb p hp

theorem NoSuccess.singleton {type : UInt8} {payload : Bytes}
    (h : type ≠ userauthSuccess) : NoSuccess [⟨type, payload⟩] := by
  intro p hp
  rw [mem_singleton.mp hp]
  exact h

/-! ## §2 The functions of the phase

A reading function changes `incomingPacket` only. Each specification gives the whole new
state, so that its callers never look inside. -/

/-- `s'` is `s` up to what is left of the packet and the flag of the method "none". -/
def SameButReading (s s' : AuthState) : Prop :=
  s' = { s with
    incomingPacket := s'.incomingPacket
    noneAuthMethodEnabled := s'.noneAuthMethodEnabled }

theorem SameButReading.refl (s : AuthState) : SameButReading s s := rfl

variable {α : Type} {s s' : AuthState} {env : AuthEnv} {packets used : List Received} {p : Received}

theorem wp_reading {g : Get α} {Q : α → AuthState → Prop} {E : Halt → AuthState → Prop}
    (hQ : ∀ a b, g s.incomingPacket = .ok a b → Q a { s with incomingPacket := b })
    (hE : ∀ e b, E e { s with incomingPacket := b }) : wp (reading g) Q E s := by
  unfold reading
  rw [wp_zoom]
  exact wp_intro hQ fun e b _ => hE e b

theorem packetCheckEom_ok {b b' : Bytes} {u : Unit} (h : packetCheckEom b = .ok u b') :
    b = [] ∧ b' = [] := by
  cases b with
  | nil => cases h; exact ⟨rfl, rfl⟩
  | cons x b => cases h

theorem userauthNone_spec (s : AuthState) :
    wp userauthNone (fun authenticated s' => authenticated = false ∧ SameButReading s s')
      (fun _ s' => SameButReading s s') s := by
  simp only [userauthNone, wp_bind, wp_modify]
  apply wp_reading
  · intro _ b _
    rw [wp_pure]
    exact ⟨rfl, rfl⟩
  · intro _ b
    exact rfl

theorem authPassword_spec (env : AuthEnv) (password : Bytes) (s : AuthState) :
    wp (authPassword env password)
      (fun authenticated s' => s' = s ∧ (authenticated = true → s.valid = true ∧
        cstr password ≠ [] ∧ env.authPasswd s.attempt s.user (cstr password) = some true))
      (fun _ s' => s' = s) s := by
  simp only [authPassword, sysAuthPasswd, wp_bind, wp_get, wp_ite, wp_pure]
  refine ⟨fun _ => ⟨trivial, by simp⟩, fun hne => ?_⟩
  cases h : env.authPasswd s.attempt s.user (cstr password) with
  | none =>
    simp only [wp_throw]
  | some result =>
    simp only [wp_pure]
    refine ⟨trivial, ?_⟩
    intro hauth
    simp only [Bool.and_eq_true] at hauth
    exact ⟨hauth.2, hne, by rw [hauth.1]⟩

/-- The method "password" succeeds only with change flag zero and a password that the
database accepts for the user of the context. -/
theorem userauthPasswd_spec (env : AuthEnv) (s : AuthState) :
    wp (userauthPasswd env)
      (fun authenticated s' => SameButReading s s' ∧ (authenticated = true → s.valid = true ∧
        ∃ password, passwordOf s.incomingPacket = some password ∧ password ≠ [] ∧
          env.authPasswd s.attempt s.user password = some true))
      (fun _ s' => SameButReading s s') s := by
  simp only [userauthPasswd, wp_bind]
  apply wp_reading ?_ fun _ _ => rfl
  intro change b1 hchange
  apply wp_reading ?_ fun _ _ => rfl
  intro password b2 hpassword
  rw [wp_ite]
  constructor
  · -- a password change request
    intro _
    simp only [wp_bind]
    apply wp_reading ?_ fun _ _ => rfl
    intro _ b3 _
    apply wp_reading ?_ fun _ _ => rfl
    intro _ b4 _
    rw [wp_pure]
    exact ⟨rfl, by simp⟩
  · intro hzero
    simp only [wp_bind]
    apply wp_reading ?_ fun _ _ => rfl
    intro _ b3 heom
    refine wp_mono (authPassword_spec env password _) ?_ ?_
    · rintro authenticated s' ⟨rfl, hauth⟩
      refine ⟨rfl, fun htrue => ?_⟩
      obtain ⟨hvalid, hne, hdb⟩ := hauth htrue
      obtain ⟨rfl, -⟩ := packetCheckEom_ok heom
      refine ⟨hvalid, cstr password, ?_, hne, hdb⟩
      obtain rfl : change = 0 := by simpa using hzero
      simp only [passwordOf, bind_of_ok hchange, bind_of_ok hpassword]
      rfl
    · rintro _ s' rfl
      exact rfl

/-- What a method reports: success only for a valid user and an accepted password. -/
def Accepted (env : AuthEnv) (s : AuthState) (m : Authmethod) : Prop :=
  m = .passwd ∧ s.valid = true ∧
    ∃ password, passwordOf s.incomingPacket = some password ∧ password ≠ [] ∧
      env.authPasswd s.attempt s.user password = some true

theorem userauth_spec (env : AuthEnv) (m : Authmethod) (s : AuthState) :
    wp (m.userauth env)
      (fun authenticated s' =>
        SameButReading s s' ∧ (authenticated = true → Accepted env s m))
      (fun _ s' => SameButReading s s') s := by
  cases m with
  | none =>
    refine wp_imp (userauthNone_spec s) ?_
    rintro authenticated s' ⟨hfalse, hsame⟩
    exact ⟨hsame, by simp [hfalse]⟩
  | passwd =>
    refine wp_imp (userauthPasswd_spec env s) ?_
    rintro authenticated s' ⟨hsame, hauth⟩
    exact ⟨hsame, fun htrue => ⟨rfl, hauth htrue⟩⟩

/-- The reply to a request: success for an authenticated one, otherwise a failure
message or the end of the connection. -/
theorem userauthFinish_spec (env : AuthEnv) (authenticated : Bool) (method : Bytes)
    (s : AuthState) (hpost : s.postponed = false) :
    wp (userauthFinish env authenticated method)
      (fun _ s' =>
        (authenticated = true ∧ s' = { s with
          userauthRequestMsg := .ignored
          sent := s.sent ++ [⟨userauthSuccess, []⟩]
          success := true }) ∨
        (authenticated = false ∧ ∃ failures reply, s' = { s with
          failures := failures
          sent := s.sent ++ [⟨Ssh2Msg.userauthFailure, reply⟩] }))
      (fun _ s' => s'.sent = s.sent) s := by
  simp only [userauthFinish, wp_bind, wp_get, wp_ite, wp_throw, hpost, packetSend, wp_modify,
    wp_pure]
  refine ⟨fun _ => trivial, fun _ => ⟨by simp, fun _ => ⟨fun h => .inl ⟨h, trivial⟩, ?_⟩⟩⟩
  intro hfalse
  have hfalse' : authenticated = false := by simpa using hfalse
  exact ⟨fun _ => ⟨fun _ => trivial, fun _ => .inr ⟨hfalse', _, _, rfl⟩⟩,
    fun _ => ⟨fun _ => trivial, fun _ => .inr ⟨hfalse', s.failures, _, rfl⟩⟩⟩

/-- Only packets other than a success were sent on the way from `s` to `s'`. -/
def Replied (s s' : AuthState) : Prop :=
  ∃ extra, s'.sent = s.sent ++ extra ∧ NoSuccess extra

theorem Replied.of_eq (h : s'.sent = s.sent) : Replied s s' :=
  ⟨[], by simp [h], by simp [NoSuccess]⟩

theorem Replied.trans {s'' : AuthState} (h : Replied s s') (h' : Replied s' s'') :
    Replied s s'' := by
  obtain ⟨a, ha, hna⟩ := h
  obtain ⟨b, hb, hnb⟩ := h'
  exact ⟨a ++ b, by rw [hb, ha, append_assoc], hna.append hnb⟩

theorem Replied.noSuccess (h : Replied s s') (hs : NoSuccess s.sent) : NoSuccess s'.sent := by
  obtain ⟨extra, heq, hextra⟩ := h
  rw [heq]
  exact hs.append hextra

/-- The context after a request of `user` for `service`: the first request sets it up, a
later one has to agree with it. -/
structure ContextSet (env : AuthEnv) (user service : Bytes) (s s' : AuthState) : Prop where
  first : s.attempt = 0 → s'.valid = (s.valid ||
    ((env.findAllowed user).isSome && service == ascii "ssh-connection"))
  later : s.attempt ≠ 0 → user = s.user ∧ service = s.service ∧ s'.valid = s.valid
  attemptEq : s'.attempt = s.attempt + 1
  userEq : s'.user = user
  serviceEq : s'.service = service

theorem userauthBanner_spec (env : AuthEnv) (s : AuthState) :
    wp (userauthBanner env)
      (fun _ s' => s' = { s with sent := s'.sent } ∧ Replied s s') never s := by
  simp only [userauthBanner, wp_ite, wp_pure, packetSend, wp_modify]
  refine ⟨fun _ => ⟨trivial, .of_eq rfl⟩, fun _ => ⟨trivial, _, rfl, ?_⟩⟩
  exact .singleton (by decide)

/-- Everything but the context, the flags of the request and `sent` stays as it is. -/
structure Untouched (s s' : AuthState) : Prop where
  success : s'.success = s.success
  handler : s'.userauthRequestMsg = s.userauthRequestMsg
  packet : s'.incomingPacket = s.incomingPacket

theorem setupAuthctxt_spec (env : AuthEnv) (rawUser rawService : Bytes) (s : AuthState) :
    wp (setupAuthctxt env rawUser rawService)
      (fun _ s' => ContextSet env (splitUser rawUser).1 (cstr rawService) s s' ∧
        Untouched s s' ∧ Replied s s')
      (fun _ s' => s'.sent = s.sent) s := by
  simp only [setupAuthctxt, wp_bind, wp_get, wp_set, wp_ite, wp_modify, wp_throw, wp_pure]
  refine ⟨fun hfirst => ?_, fun hlater => ⟨fun _ => trivial, fun hsame => ?_⟩⟩
  · refine wp_mono (userauthBanner_spec env _) ?_ fun _ _ h => h.elim
    rintro _ s' ⟨heq, hreplied⟩
    rw [heq] at hreplied ⊢
    exact ⟨⟨fun _ => rfl, fun h => absurd hfirst h, rfl, rfl, rfl⟩, ⟨rfl, rfl, rfl⟩, hreplied⟩
  · simp only [not_or, not_not] at hsame
    exact ⟨⟨fun h => absurd h hlater, fun _ => ⟨hsame.1, hsame.2, rfl⟩, rfl, hsame.1.symm,
      hsame.2.symm⟩, ⟨rfl, rfl, rfl⟩, .of_eq rfl⟩

/-- The reply to the request `r`: no success, or success for an accepted password. -/
inductive Reply (env : AuthEnv) (r : Request) (s s' : AuthState) : Prop
  | refused (success : s'.success = s.success)
      (handler : s'.userauthRequestMsg = s.userauthRequestMsg) (replied : Replied s s')
  | accepted (success : s'.success = true) (method : r.method = ascii "password")
      (valid : s'.valid = true)
      (password : ∃ password, passwordOf r.body = some password ∧ password ≠ [] ∧
        env.authPasswd s'.attempt s'.user password = some true)
      (sent : ∃ mid, Replied s mid ∧ s'.sent = mid.sent ++ [⟨userauthSuccess, []⟩])

theorem authmethodLookup_name {name : Bytes} {m : Authmethod}
    (h : authmethodLookup s name = some m) : name = m.name := by
  have hm := find?_some h
  simp only [Bool.and_eq_true, beq_iff_eq] at hm
  exact hm.2

theorem tryMethod_spec (env : AuthEnv) (r : Request) (s : AuthState)
    (hbody : s.incomingPacket = r.body) (hpost : s.postponed = false) :
    wp (tryMethod env r.method)
      (fun _ s' => Reply env r s s' ∧ s'.attempt = s.attempt ∧ s'.user = s.user ∧
        s'.service = s.service ∧ s'.valid = s.valid)
      (fun _ s' => Replied s s') s := by
  -- a request that is not authenticated gets a failure message
  have hrefused : ∀ t : AuthState, SameButReading s t →
      wp (userauthFinish env false r.method)
        (fun _ s' => Reply env r s s' ∧ s'.attempt = s.attempt ∧ s'.user = s.user ∧
          s'.service = s.service ∧ s'.valid = s.valid)
        (fun _ s' => Replied s s') t := by
    intro t ht
    rw [ht]
    refine wp_mono (userauthFinish_spec env false r.method _ hpost) ?_
      fun _ _ h => .of_eq h
    rintro _ s' (⟨h, -⟩ | ⟨-, failures, reply, rfl⟩)
    · cases h
    · refine ⟨.refused rfl rfl ⟨_, rfl, ?_⟩, rfl, rfl, rfl, rfl⟩
      exact .singleton (by decide)
  simp only [tryMethod, wp_bind, wp_get]
  cases hm : authmethodLookup s r.method with
  | none => exact hrefused s (.refl s)
  | some m =>
    simp only [wp_bind]
    refine wp_mono (userauth_spec env m s) ?_ fun _ s' h => .of_eq (by rw [h])
    rintro authenticated t ⟨ht, hauth⟩
    cases authenticated with
    | false => exact hrefused t ht
    | true =>
      obtain ⟨rfl, hvalid, password⟩ := hauth rfl
      rw [ht]
      refine wp_mono (userauthFinish_spec env true r.method _ hpost) ?_
        fun _ _ h => .of_eq h
      rintro _ s' (⟨-, rfl⟩ | ⟨h, -⟩)
      · rw [hbody] at password
        refine ⟨.accepted rfl ?_ hvalid password ⟨s, .of_eq rfl, rfl⟩, rfl, rfl, rfl, rfl⟩
        exact authmethodLookup_name hm
      · cases h

/-- **A USERAUTH_REQUEST**: the packet parses, the context is set up or agrees, and
success is sent only for an accepted password. -/
theorem inputUserauthRequest_spec (env : AuthEnv) (s : AuthState) :
    wp (inputUserauthRequest env)
      (fun _ s' => ∃ r, parseRequest s.incomingPacket = some r ∧
        ContextSet env r.user r.service s s' ∧ Reply env r s s')
      (fun _ s' => Replied s s') s := by
  simp only [inputUserauthRequest, wp_bind]
  refine wp_reading ?_ fun _ _ => .of_eq rfl
  intro user b1 huser
  refine wp_reading ?_ fun _ _ => .of_eq rfl
  intro service b2 hservice
  refine wp_reading ?_ fun _ _ => .of_eq rfl
  intro method b3 hmethod
  have hparse : parseRequest s.incomingPacket =
      some ⟨(splitUser user).1, cstr service, cstr method, b3⟩ := by
    simp only [parseRequest, readRequest, bind_of_ok huser, bind_of_ok hservice,
      bind_of_ok hmethod]
    rfl
  refine wp_mono (setupAuthctxt_spec env user service _) ?_ fun _ _ h => .of_eq h
  rintro _ mid ⟨hctx, hmid, hreplied⟩
  have htry := tryMethod_spec env ⟨(splitUser user).1, cstr service, cstr method, b3⟩
    { mid with postponed := false, serverCausedFailure := false } hmid.packet rfl
  rw [wp_modify]
  refine wp_mono htry ?_ fun _ _ h => hreplied.trans h
  rintro _ s' ⟨hreply, hattempt, huser', hservice', hvalid⟩
  refine ⟨_, hparse, ⟨?_, ?_, ?_, ?_, ?_⟩, ?_⟩
  · intro h
    rw [hvalid]
    exact hctx.first h
  · intro h
    rw [hvalid]
    exact hctx.later h
  · rw [hattempt]
    exact hctx.attemptEq
  · rw [huser']
    exact hctx.userEq
  · rw [hservice']
    exact hctx.serviceEq
  · cases hreply with
    | refused hsuccess hhandler hrep =>
      exact .refused (hsuccess.trans hmid.success) (hhandler.trans hmid.handler)
        (hreplied.trans hrep)
    | accepted hsuccess hmethod' hval hpassword hsent =>
      obtain ⟨mid', hmid', hsent⟩ := hsent
      exact .accepted hsuccess hmethod' hval hpassword ⟨mid', hreplied.trans hmid', hsent⟩

theorem inputServiceRequest_spec (s : AuthState) :
    wp inputServiceRequest
      (fun _ s' => (∃ service, packetGetString s.incomingPacket = .ok service [] ∧
          cstr service = ascii "ssh-userauth") ∧
        Replied s s' ∧ s' = { s with
          userauthRequestMsg := .userauthRequest
          incomingPacket := s'.incomingPacket
          sent := s'.sent })
      (fun _ s' => Replied s s') s := by
  simp only [inputServiceRequest, wp_bind]
  refine wp_reading ?_ fun _ _ => .of_eq rfl
  intro service b1 hservice
  refine wp_reading ?_ fun _ _ => .of_eq rfl
  intro _ b2 heom
  obtain ⟨rfl, rfl⟩ := packetCheckEom_ok heom
  simp only [wp_get, wp_ite, wp_bind, wp_modify, packetSend, wp_throw]
  constructor
  · intro haccept
    refine ⟨⟨service, hservice, haccept.1⟩, ⟨_, rfl, ?_⟩, trivial⟩
    exact .singleton (by decide)
  · intro _
    exact .of_eq rfl

/-- The transport messages that never reach the dispatcher. -/
theorem packetReadPoll_spec (type : UInt8) (b : Bytes) :
    wp (packetReadPoll type)
      (fun returned b' => (returned = true → b' = b) ∧
        (returned = false → type ≠ serviceRequest ∧ type ≠ userauthRequest))
      any b := by
  have hread : ∀ {α : Type} (g : Get α) (Q : α → Bytes → Prop) (b : Bytes),
      (∀ a b', Q a b') → wp g Q any b :=
    fun g Q b h => wp_intro (fun a b' _ => h a b') fun _ _ _ => trivial
  simp only [packetReadPoll, wp_ite, wp_pure, wp_bind, wp_throw]
  refine ⟨?_, fun _ => ⟨?_, fun _ => ⟨?_, fun _ => ⟨?_, fun _ => by simp⟩⟩⟩⟩
  · rintro rfl
    exact ⟨by simp, fun _ => by decide⟩
  · rintro rfl
    refine hread _ _ _ fun _ _ => hread _ _ _ fun _ _ => hread _ _ _ fun _ _ => ?_
    exact ⟨by simp, fun _ => by decide⟩
  · intro _
    exact hread _ _ _ fun _ _ => hread _ _ _ fun _ _ => trivial
  · rintro rfl
    refine hread _ _ _ fun _ _ => ?_
    exact ⟨by simp, fun _ => by decide⟩

/-! ## §3 The invariant -/

/-- The context after the requests among `packets`. -/
structure Context (env : AuthEnv) (packets : List Received) (s : AuthState) : Prop where
  count : s.attempt = packets.countP isRequest
  all : AllFrom s.user s.service packets
  fresh : s.attempt = 0 → s.valid = false
  valid : s.valid = true →
    (env.findAllowed s.user).isSome = true ∧ s.service = ascii "ssh-connection"

/-- Where the phase stands after the packets `used`: before or after the service request
that enables the request handler. -/
inductive Phase (env : AuthEnv) (used : List Received) (s : AuthState) : Prop
  | waiting (none : ∀ p ∈ used, ¬ AcceptsUserauth p)
      (handler : s.userauthRequestMsg = .unexpected) (context : Context env [] s)
  | serving (before : List Received) (svc : Received) (after : List Received)
      (split : used = before ++ svc :: after) (none : ∀ p ∈ before, ¬ AcceptsUserauth p)
      (accepted : AcceptsUserauth svc) (handler : s.userauthRequestMsg = .userauthRequest)
      (context : Context env after s)

structure SameContext (s s' : AuthState) : Prop where
  attempt : s'.attempt = s.attempt
  valid : s'.valid = s.valid
  user : s'.user = s.user
  service : s'.service = s.service

structure SamePhase (s s' : AuthState) : Prop extends SameContext s s' where
  handler : s'.userauthRequestMsg = s.userauthRequestMsg

theorem Context.congr
    (h : Context env packets s) (hsame : SameContext s s') : Context env packets s' := by
  obtain ⟨hcount, hall, hfresh, hval⟩ := h
  refine ⟨?_, ?_, ?_, ?_⟩
  · rw [hsame.attempt, hcount]
  · rw [hsame.user, hsame.service]
    exact hall
  · rw [hsame.attempt, hsame.valid]
    exact hfresh
  · rw [hsame.valid, hsame.user, hsame.service]
    exact hval

/-- A packet that is no request leaves the context as it is. -/
theorem Context.skip
    (h : Context env packets s) (hp : isRequest p = false) : Context env (packets ++ [p]) s := by
  obtain ⟨hcount, hall, hfresh, hval⟩ := h
  refine ⟨?_, ?_, hfresh, hval⟩
  · simp [hcount, hp]
  · simpa [AllFrom, filter_append, hp] using hall

/-- A handled request is added to the context. -/
theorem Context.request {r : Request} (h : Context env packets s) (hp : isRequest p = true)
    (hparse : parseRequest p.payload = some r) (hset : ContextSet env r.user r.service s s') :
    Context env (packets ++ [p]) s' := by
  have hlast : ∃ r', parseRequest p.payload = some r' ∧
      r'.user = s'.user ∧ r'.service = s'.service :=
    ⟨r, hparse, hset.userEq.symm, hset.serviceEq.symm⟩
  have hcount : s'.attempt = (packets ++ [p]).countP isRequest := by
    simp [hset.attemptEq, h.count, hp]
  by_cases hfirst : s.attempt = 0
  · -- the first request: there is none among `packets`
    have hnone : packets.filter isRequest = [] := by
      rw [← length_eq_zero_iff, ← countP_eq_length_filter, ← h.count, hfirst]
    refine ⟨hcount, ?_, fun h0 => ?_, fun hvalid => ?_⟩
    · intro q hq
      rw [filter_append, hnone] at hq
      simp only [filter_singleton, hp, nil_append, cond_true, mem_singleton] at hq
      rw [hq]
      exact hlast
    · rw [hset.attemptEq] at h0
      omega
    · rw [hset.first hfirst, h.fresh hfirst] at hvalid
      simp only [Bool.false_or, Bool.and_eq_true, beq_iff_eq] at hvalid
      rw [hset.userEq, hset.serviceEq]
      exact hvalid
  · obtain ⟨huser, hservice, hvalid⟩ := hset.later hfirst
    have huser' : s'.user = s.user := hset.userEq.trans huser
    have hservice' : s'.service = s.service := hset.serviceEq.trans hservice
    refine ⟨hcount, ?_, fun h0 => ?_, fun hval => ?_⟩
    · intro q hq
      rw [filter_append] at hq
      rcases mem_append.mp hq with hq | hq
      · rw [huser', hservice']
        exact h.all q hq
      · simp only [filter_singleton, hp, cond_true, mem_singleton] at hq
        rw [hq]
        exact hlast
    · rw [hset.attemptEq] at h0
      omega
    · rw [huser', hservice']
      exact h.valid (hvalid ▸ hval)

private theorem forall_append_singleton {P : α → Prop} {l : List α} {a : α}
    (hl : ∀ x ∈ l, P x) (ha : P a) : ∀ x ∈ l ++ [a], P x := by
  intro x hx
  rcases mem_append.mp hx with hx | hx
  · exact hl x hx
  · rw [mem_singleton.mp hx]
    exact ha

theorem Phase.congr (h : Phase env used s) (hsame : SamePhase s s') : Phase env used s' := by
  cases h with
  | waiting hnone hhandler hctx =>
    exact .waiting hnone (hsame.handler.trans hhandler) (hctx.congr hsame.toSameContext)
  | serving before svc after hsplit hnone haccepted hhandler hctx =>
    exact .serving before svc after hsplit hnone haccepted (hsame.handler.trans hhandler)
      (hctx.congr hsame.toSameContext)

/-- A packet that is neither handler's business does not change the phase. -/
theorem Phase.skip (h : Phase env used s) (hsvc : p.type ≠ serviceRequest)
    (hreq : isRequest p = false ∨ s.userauthRequestMsg = .unexpected) :
    Phase env (used ++ [p]) s := by
  cases h with
  | waiting hnone hhandler hctx =>
    exact .waiting (forall_append_singleton hnone (fun hp => hsvc hp.1)) hhandler hctx
  | serving before svc after hsplit hnone haccepted hhandler hctx =>
    have hp : isRequest p = false := by
      rcases hreq with hp | hunexp
      · exact hp
      · rw [hhandler] at hunexp
        cases hunexp
    exact .serving before svc (after ++ [p]) (by simp [hsplit]) hnone haccepted hhandler
      (hctx.skip hp)

/-- The loop invariant of `dispatch_run`. -/
structure Inv (env : AuthEnv) (used : List Received) (s : AuthState) : Prop where
  success : s.success = false
  sent : NoSuccess s.sent
  phase : Phase env used s

/-- What holds when the loop is left. -/
def LoggedIn (env : AuthEnv) (used : List Received) (s : AuthState) : Prop :=
  s.success = true ∧ Login env used ∧
    ∃ earlier, NoSuccess earlier ∧ s.sent = earlier ++ [⟨userauthSuccess, []⟩]

/-! ## §4 One turn of the loop, and the run -/

/-- What a turn of the loop has to establish. -/
def TurnPost (env : AuthEnv) (used : List Received) (s : AuthState) : Prop :=
  (s.success = true → LoggedIn env used s) ∧ (s.success = false → Inv env used s)

theorem Inv.skip (h : Inv env used s) (hsvc : p.type ≠ serviceRequest)
    (hreq : isRequest p = false ∨ s.userauthRequestMsg = .unexpected)
    (hsame : SamePhase s s') (hsuccess : s'.success = s.success) (hreplied : Replied s s') :
    TurnPost env (used ++ [p]) s' := by
  refine ⟨fun htrue => ?_, fun _ => ⟨?_, ?_, ?_⟩⟩
  · rw [hsuccess, h.success] at htrue
    cases htrue
  · rw [hsuccess, h.success]
  · exact hreplied.noSuccess h.sent
  · exact (h.phase.skip hsvc hreq).congr hsame

theorem inputServiceRequest_turn (h : Inv env used s) (htype : p.type = serviceRequest)
    (hpayload : s.incomingPacket = p.payload) :
    wp inputServiceRequest (fun _ => TurnPost env (used ++ [p]))
      (fun _ s' => NoSuccess s'.sent) s := by
  refine wp_mono (inputServiceRequest_spec s) ?_ fun _ _ hr => hr.noSuccess h.sent
  rintro _ s' ⟨haccept, hreplied, hs'⟩
  have haccepted : AcceptsUserauth p := ⟨htype, by rw [← hpayload]; exact haccept⟩
  have hnotreq : isRequest p = false := by
    rw [isRequest, htype]
    rfl
  have hsent := hreplied.noSuccess h.sent
  rw [hs']
  refine ⟨fun htrue => ?_, fun _ => ⟨h.success, hsent, ?_⟩⟩
  · exact absurd htrue (by simp [h.success])
  · cases h.phase with
    | waiting hnone hhandler hctx =>
      exact .serving used p [] rfl hnone haccepted rfl (hctx.congr ⟨rfl, rfl, rfl, rfl⟩)
    | serving before svc after hsplit hnone hsvc hhandler hctx =>
      refine .serving before svc (after ++ [p]) (by simp [hsplit]) hnone hsvc rfl ?_
      exact (hctx.skip hnotreq).congr ⟨rfl, rfl, rfl, rfl⟩

/-- The turn of a USERAUTH_REQUEST once the handler is enabled. -/
theorem inputUserauthRequest_turn (h : Inv env used s) (hreq : isRequest p = true)
    (hhandler : s.userauthRequestMsg = .userauthRequest) (hpayload : s.incomingPacket = p.payload) :
    wp (inputUserauthRequest env) (fun _ => TurnPost env (used ++ [p]))
      (fun _ s' => NoSuccess s'.sent) s := by
  refine wp_mono (inputUserauthRequest_spec env s) ?_ fun _ _ hr => hr.noSuccess h.sent
  rintro _ s' ⟨r, hparse, hset, hreply⟩
  rw [hpayload] at hparse
  cases h.phase with
  | waiting _ hunexpected _ =>
    rw [hhandler] at hunexpected
    cases hunexpected
  | serving before svc after hsplit hnone haccepted _ hctx =>
    have hctx' : Context env (after ++ [p]) s' := hctx.request hreq hparse hset
    have hsplit' : used ++ [p] = before ++ svc :: (after ++ [p]) := by simp [hsplit]
    cases hreply with
    | refused hsuccess hhandler' hreplied =>
      refine ⟨fun htrue => ?_, fun _ => ⟨?_, hreplied.noSuccess h.sent, ?_⟩⟩
      · rw [hsuccess, h.success] at htrue
        cases htrue
      · rw [hsuccess, h.success]
      · exact .serving before svc (after ++ [p]) hsplit' hnone haccepted
          (hhandler'.trans hhandler) hctx'
    | accepted hsuccess hmethod hvalid hpassword hsent =>
      refine ⟨fun _ => ⟨hsuccess, ?_, ?_⟩, fun hfalse => ?_⟩
      · obtain ⟨hfound, hservice⟩ := hctx'.valid hvalid
        obtain ⟨password, hbody, hne, hdb⟩ := hpassword
        refine ⟨before, svc, after, p, s'.user, password, hsplit', hnone, haccepted, ?_, hfound,
          hreq, ⟨r, hparse, hmethod, hbody⟩, hne, ?_⟩
        · rw [← hservice]
          exact hctx'.all
        · rw [← hctx'.count]
          exact hdb
      · obtain ⟨mid, hmid, heq⟩ := hsent
        exact ⟨mid.sent, hmid.noSuccess h.sent, heq⟩
      · rw [hsuccess] at hfalse
        cases hfalse

theorem dispatchMsg_turn (h : Inv env used s) (hpayload : s.incomingPacket = p.payload) :
    wp (dispatchMsg env p.type p.seqnr) (fun _ => TurnPost env (used ++ [p]))
      (fun _ s' => NoSuccess s'.sent) s := by
  -- an unexpected packet is answered with UNIMPLEMENTED
  have hunexpected : p.type ≠ serviceRequest →
      (isRequest p = false ∨ s.userauthRequestMsg = .unexpected) →
      wp (unexpectedMsg p.seqnr) (fun _ => TurnPost env (used ++ [p]))
        (fun _ s' => NoSuccess s'.sent) s := by
    intro hsvc hreq
    simp only [unexpectedMsg, packetSend, wp_modify]
    refine h.skip hsvc hreq ⟨⟨rfl, rfl, rfl, rfl⟩, rfl⟩ rfl ⟨_, rfl, ?_⟩
    exact .singleton (by decide)
  simp only [dispatchMsg, wp_bind, wp_get, AuthState.dispatch]
  by_cases hsvc : p.type = serviceRequest
  · rw [if_pos hsvc]
    exact inputServiceRequest_turn h hsvc hpayload
  · rw [if_neg hsvc]
    by_cases hreq : p.type = userauthRequest
    · rw [if_pos hreq]
      cases h.phase with
      | waiting _ hhandler _ =>
        simp only [hhandler]
        exact hunexpected hsvc (.inr hhandler)
      | serving _ _ _ _ _ _ hhandler _ =>
        simp only [hhandler]
        exact inputUserauthRequest_turn h (by simp [isRequest, hreq]) hhandler hpayload
    · rw [if_neg hreq]
      exact hunexpected hsvc (.inl (by simpa [isRequest] using hreq))

theorem dispatchStep_turn (env : AuthEnv) (used : List Received) (p : Received)
    (s : AuthState) (h : Inv env used s) :
    wp (dispatchStep env p) (fun _ => TurnPost env (used ++ [p]))
      (fun _ s' => NoSuccess s'.sent) s := by
  simp only [dispatchStep, wp_bind, wp_modify, reading, wp_zoom]
  refine wp_mono (packetReadPoll_spec p.type p.payload) ?_ fun _ _ _ => h.sent
  rintro returned b ⟨hreturned, hkept⟩
  cases returned with
  | false =>
    obtain ⟨hsvc, hreq⟩ := hkept rfl
    rw [if_neg (by simp), wp_pure]
    exact h.skip hsvc (.inl (by simpa [isRequest] using hreq)) ⟨⟨rfl, rfl, rfl, rfl⟩, rfl⟩ rfl
      (.of_eq rfl)
  | true =>
    obtain rfl : b = p.payload := hreturned rfl
    have hinv : Inv env used { s with incomingPacket := p.payload } :=
      ⟨h.success, h.sent, h.phase.congr ⟨⟨rfl, rfl, rfl, rfl⟩, rfl⟩⟩
    rw [if_pos rfl]
    exact dispatchMsg_turn hinv rfl

theorem doAuthentication2_spec (env : AuthEnv) (packets : List Received) :
    wp (doAuthentication2 env packets)
      (fun rest s => ∃ used, packets = used ++ rest ∧
        (LoggedIn env used s ∨ (rest = [] ∧ Inv env used s)))
      (fun _ s => NoSuccess s.sent) {} := by
  have hinit : Inv env [] {} := by
    refine ⟨rfl, by simp [NoSuccess], .waiting (by simp) rfl ?_⟩
    exact ⟨rfl, by simp [AllFrom], fun _ => rfl, by simp⟩
  have hrun := wp_runUntil (Inv env) (LoggedIn env) (fun _ _ s => NoSuccess s.sent)
    (dispatchStep_turn env) packets [] {} hinit
  refine wp_mono hrun (fun rest s hend => hend) ?_
  rintro _ s ⟨-, -, -, hsent⟩
  exact hsent

/-- The successes among the packets sent. -/
def successes (sent : List Packet) : Nat :=
  sent.countP (·.type == userauthSuccess)

theorem successes_eq_zero {sent : List Packet} (h : NoSuccess sent) : successes sent = 0 := by
  rw [successes, countP_eq_zero]
  intro p hp
  simpa using h p hp

/-- **Authentication soundness.** Whatever packets the client sends, the server sends at
most one success; a success is sent exactly when `do_authentication2` leaves its loop, and
then the packets read so far are a login. -/
theorem userauthSuccess_sound (env : AuthEnv) (packets : List Received) :
    successes (endState (doAuthentication2 env packets) {}).sent ≤ 1 ∧
    (successes (endState (doAuthentication2 env packets) {}).sent ≠ 0 ↔
      ∃ rest s, doAuthentication2 env packets {} = .ok rest s ∧ s.success = true) ∧
    (successes (endState (doAuthentication2 env packets) {}).sent ≠ 0 →
      ∃ used rest s, packets = used ++ rest ∧
        doAuthentication2 env packets {} = .ok rest s ∧ Login env used) := by
  have hspec := doAuthentication2_spec env packets
  cases hrun : doAuthentication2 env packets {} with
  | error e s =>
    rw [wp_of_error hrun] at hspec
    simp [endState, hrun, successes_eq_zero hspec]
  | ok rest s =>
    rw [wp_of_ok hrun] at hspec
    obtain ⟨used, hsplit, hend⟩ := hspec
    rcases hend with ⟨hsuccess, hlogin, earlier, hnone, hsent⟩ | ⟨-, hinv⟩
    · have hone : successes s.sent = 1 := by
        rw [hsent, successes, countP_append]
        simpa [successes] using successes_eq_zero hnone
      simp only [endState, hrun, hone]
      exact ⟨by omega, ⟨fun _ => ⟨rest, s, rfl, hsuccess⟩, by simp⟩,
        fun _ => ⟨used, rest, s, hsplit, rfl, hlogin⟩⟩
    · simp [endState, hrun, successes_eq_zero hinv.sent, hinv.success]

/-- A database with one user, and the two packets of a login. -/
example :
    let env : AuthEnv :=
      { findAllowed := fun u => if u = ascii "joe" then some ⟨u, ascii "c:\\"⟩ else none
        authPasswd := fun _ u p => some (u == ascii "joe" && p == ascii "pw")
        maxLoginAttempts := 5
        bugBanner := false }
    ∃ s, doAuthentication2 env
        [⟨⟨5, putString (ascii "ssh-userauth")⟩, 3⟩,
          ⟨⟨50, putString (ascii "joe") ++ putString (ascii "ssh-connection") ++
            putString (ascii "password") ++ 0 :: putString (ascii "pw")⟩, 4⟩] {} = .ok [] s ∧
      s.success = true :=
  ⟨_, rfl, rfl⟩

end Shiesh.Auth
