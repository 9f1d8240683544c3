import Shiesh.Auth.Attempts

/-!
# No Account Oracle

What a client that is never let in learns about the user database.

The database is read in two places, by `find_allowed` for the first request and by `auth_passwd`
for a password. What comes back is kept in `Authctxt::pw` and `Authctxt::valid`, which `hide`
takes away. A phase in which no password is accepted runs like the phase of a server that knows
nobody (`blind`), but for these two fields.
-/

namespace Shiesh.Auth

open Shiesh.Lib AuthState
open Mimics (bind bind_at get_bind modify pure set throw zoom)

/-! ## §1 A server that knows nobody -/

/-- The state without what was read from the database. -/
def AuthState.hide (s : AuthState) : AuthState := { s with pw := none, valid := false }

/-- The same server with an empty database; its queries fail when those of the other one do. -/
def AuthEnv.blind (env : AuthEnv) : AuthEnv := { env with
  findAllowed := fun _ => none
  authPasswd := fun attempt user password =>
    (env.authPasswd attempt user password).map fun _ => false }

theorem reading_hide {α : Type} (g : Get α) : Commutes hide (reading g) :=
  zoom g (fun _ => rfl) fun _ _ => rfl

theorem packetSend_hide (type : UInt8) (payload : Bytes) :
    Commutes hide (packetSend type payload) :=
  Commutes.modify fun _ => rfl

theorem setupAuthctxt_blind (env : AuthEnv) (rawUser rawService : Bytes) :
    Mimics hide (setupAuthctxt env rawUser rawService)
      (setupAuthctxt env.blind rawUser rawService) := by
  unfold setupAuthctxt
  apply get_bind
  intro s
  apply bind (set _)
  intro _
  apply Mimics.ite
  · -- the first request: the answer of the database only goes into hidden fields
    refine bind (modify ?_) fun _ => (.ite (pure ()) (packetSend_hide _ _))
    exact fun _ => rfl
  · exact .ite (throw _) (pure ())

/-- The reply to a request that is not authenticated. -/
theorem userauthFinish_blind (env : AuthEnv) (method : Bytes) :
    Mimics hide (userauthFinish env false method)
      (userauthFinish env.blind false method) := by
  have hreply : Commutes hide (do
      let s ← get
      if s.failures ≥ env.maxLoginAttempts then
        throw (.disconnect "Too many authentication failures for %.100s" [.str s.user])
      else
        packetSend Ssh2Msg.userauthFailure (putCstring (authmethodsGet s) ++ [0])) :=
    get_bind fun s => .ite (throw _) (packetSend_hide _ _)
  unfold userauthFinish
  apply get_bind
  intro s
  -- `valid` is only looked at for a request that is authenticated
  simp only [Bool.false_eq_true, and_false, if_false]
  refine .ite (pure ()) (.ite (bind (modify ?_) ?_) hreply)
  · exact fun _ => rfl
  · exact fun _ => hreply

/-! ## §2 A turn up to the call of `auth_password` -/

theorem passwdUpToCall_hide : Commutes hide passwdUpToCall := by
  apply bind (reading_hide _)
  intro change
  apply bind (reading_hide _)
  intro password
  apply Mimics.ite
  · apply bind (reading_hide _)
    exact fun _ => bind (reading_hide _) fun _ => pure none
  · exact bind (reading_hide _) fun _ => pure (some password)

theorem methodUpToCall_blind (env : AuthEnv) (method : Bytes) :
    Mimics hide (methodUpToCall env method) (methodUpToCall env.blind method) := by
  have hfails : Mimics hide
      (do userauthFinish env false method; pure (none : Option (Bytes × Bytes)))
      (do userauthFinish env.blind false method; pure none) :=
    bind (userauthFinish_blind env method) fun _ => pure none
  unfold methodUpToCall
  apply get_bind
  intro s
  have hlookup : authmethodLookup s.hide method = authmethodLookup s method := rfl
  rw [hlookup]
  cases authmethodLookup s method with
  | none => exact hfails
  | some m =>
    cases m with
    | none =>
      simp only [userauthNone, bind_assoc, pure_bind]
      refine bind (modify ?_) fun _ => bind (reading_hide _) fun _ => hfails
      exact fun _ => rfl
    | passwd =>
      apply bind passwdUpToCall_hide
      intro password
      cases password with
      | none => exact hfails
      | some password => exact pure _

theorem requestUpToCall_blind (env : AuthEnv) :
    Mimics hide (requestUpToCall env) (requestUpToCall env.blind) := by
  apply bind (reading_hide _)
  intro user
  apply bind (reading_hide _)
  intro service
  apply bind (reading_hide _)
  intro method
  apply bind (setupAuthctxt_blind env user service)
  intro _
  refine bind (modify ?_) fun _ => methodUpToCall_blind env _
  exact fun _ => rfl

theorem inputServiceRequest_hide : Commutes hide inputServiceRequest := by
  apply bind (reading_hide _)
  intro service
  apply bind (reading_hide _)
  intro _
  apply get_bind
  intro s
  refine .ite (bind (modify ?_) fun _ => packetSend_hide _ _) (throw _)
  exact fun _ => rfl

theorem upToPassword_blind (env : AuthEnv) (p : Received) :
    Mimics hide (upToPassword env p) (upToPassword env.blind p) := by
  refine bind (modify ?_) fun _ => bind (reading_hide _) fun returned => ?_
  · exact fun _ => rfl
  apply Mimics.ite
  · apply get_bind
    intro s
    have hdispatch : s.hide.dispatch p.type = s.dispatch p.type := rfl
    rw [hdispatch]
    cases s.dispatch p.type with
    | userauthRequest => exact requestUpToCall_blind env
    | serviceRequest => exact bind inputServiceRequest_hide fun _ => pure none
    | ignored => exact pure none
    | unexpected => exact bind (packetSend_hide _ _) fun _ => pure none
  · exact pure none

/-! ## §3 A turn that does not let the client in -/

variable {env : AuthEnv} {s : AuthState}

theorem authPassword_blind {password : Bytes}
    (hrefused : ∀ s', authPassword env password s ≠ .ok true s') :
    authPassword env.blind password s.hide =
      mapEnd hide (authPassword env password s) := by
  simp only [authPassword, sysAuthPasswd, get_bind_apply] at hrefused ⊢
  by_cases hempty : cstr password = []
  · rw [if_pos hempty, if_pos hempty]
    rfl
  rw [if_neg hempty] at hrefused ⊢
  rw [if_neg hempty]
  have hquery : env.blind.authPasswd s.hide.attempt s.hide.user (cstr password) =
      (env.authPasswd s.attempt s.user (cstr password)).map fun _ => false := rfl
  simp only [get_bind_apply, bind_assoc] at hrefused ⊢
  rw [hquery]
  cases hanswer : env.authPasswd s.attempt s.user (cstr password) with
  | none => rfl
  | some result =>
    rw [hanswer] at hrefused
    have hfalse : (result && s.valid) = false := by
      cases haccept : result && s.valid with
      | false => rfl
      | true => exact absurd (congrArg (EStateM.Result.ok · s) haccept) (hrefused s)
    exact congrArg (EStateM.Result.ok · s.hide) hfalse.symm

theorem userauthFinish_accepts (env : AuthEnv) (method : Bytes)
    (hvalid : s.valid = true) (hpost : s.postponed = false) :
    (endState (userauthFinish env true method) s).success = true := by
  apply wp_endState_both (P := fun s' : AuthState => s'.success = true)
  simp only [userauthFinish, wp_bind, wp_get, wp_ite, hvalid, hpost, packetSend, wp_modify]
  simp

/-- **The call and the reply**: a password that is accepted ends the phase, any other one is
refused as an unknown user's is. -/
theorem checkPassword_blind (env : AuthEnv) (password method : Bytes) (s : AuthState)
    (hpost : s.postponed = false)
    (hend : (endState (checkPassword env (some (password, method))) s).success = false) :
    checkPassword env.blind (some (password, method)) s.hide =
      mapEnd hide (checkPassword env (some (password, method)) s) := by
  have hrefused : ∀ s', authPassword env password s ≠ .ok true s' := by
    intro s' hrun
    obtain ⟨rfl, hvalid⟩ := (wp_of_ok hrun).mp (authPassword_spec env password s)
    have hsuccess := userauthFinish_accepts env method (hvalid rfl).1 hpost
    rw [endState, checkPassword, bind_of_ok hrun] at hend
    cases hsuccess.symm.trans hend
  apply bind_at (authPassword_blind hrefused)
  intro authenticated s' hrun
  cases authenticated with
  | false => exact userauthFinish_blind env method s'
  | true => exact absurd hrun (hrefused s')

theorem dispatchStep_blind (env : AuthEnv) (p : Received) (s : AuthState)
    (hend : (endState (dispatchStep env p) s).success = false) :
    dispatchStep env.blind p s.hide = mapEnd hide (dispatchStep env p s) := by
  rw [dispatchStep_eq] at hend
  rw [dispatchStep_eq, dispatchStep_eq]
  apply bind_at (upToPassword_blind env p s)
  intro call s' hcall
  cases call with
  | none => rfl
  | some call =>
    have hcut := (wp_of_ok hcall).mp (upToPassword_cut env p s)
    apply checkPassword_blind env call.1 call.2 s' (hcut.calls _ _ rfl).2.2.postponed
    rwa [endState, bind_of_ok hcall] at hend

/-! ## §4 What the client sees -/

/-- What the two queries find in the table of users, at each attempt. -/
structure Accounts where
  findAllowed : Bytes → Option User
  accepts : Nat → Bytes → Bytes → Bool

/-- The database with these accounts, behind an SQL engine that throws at some of the queries of
`auth_passwd`. -/
def Accounts.db (accounts : Accounts) (throws : Nat → Bytes → Bytes → Bool) : UserDb where
  findAllowed := accounts.findAllowed
  authPasswd attempt user password :=
    if throws attempt user password then none else some (accounts.accepts attempt user password)

/-- Whether a password of the sequence is accepted. -/
def letsIn (env : AuthEnv) (packets : List Received) : Bool :=
  (endState (doAuthentication2 env packets) {}).success

/-- What the client sees of the phase: the packets sent, and the disconnect or the exception that
ended it. -/
def transcript (env : AuthEnv) (packets : List Received) : List Packet × Option Halt :=
  match doAuthentication2 env packets {} with
  | .ok _ s => (s.sent, none)
  | .error e s => (s.sent, some e)

theorem transcript_blind {packets : List Received}
    (h : letsIn env packets = false) : transcript env packets = transcript env.blind packets := by
  have hrun : doAuthentication2 env.blind packets {} =
      mapEnd hide (doAuthentication2 env packets {}) :=
    Mimics.runUntil (f := hide) (fun _ => rfl) (dispatchStep_blind env) packets {} h
  rw [transcript, transcript, hrun]
  cases doAuthentication2 env packets {} with
  | ok _ s => rfl
  | error e s => rfl

theorem blind_db (accounts : Accounts) (throws : Nat → Bytes → Bytes → Bool) (m : Nat)
    (bugBanner : Bool) :
    AuthEnv.blind ⟨accounts.db throws, m, bugBanner⟩ =
      ⟨Accounts.db ⟨fun _ => none, fun _ _ _ => false⟩ throws, m, bugBanner⟩ := by
  simp only [AuthEnv.blind, Accounts.db, AuthEnv.mk.injEq, UserDb.mk.injEq, true_and, and_true]
  funext attempt user password
  split <;> rfl

/-- **No account oracle**: two databases under which nobody is let in give the client the same
replies. -/
theorem no_account_oracle (accounts accounts' : Accounts) (throws : Nat → Bytes → Bytes → Bool)
    (m : Nat) (bugBanner : Bool) (packets : List Received)
    (h : letsIn ⟨accounts.db throws, m, bugBanner⟩ packets = false)
    (h' : letsIn ⟨accounts'.db throws, m, bugBanner⟩ packets = false) :
    transcript ⟨accounts.db throws, m, bugBanner⟩ packets =
      transcript ⟨accounts'.db throws, m, bugBanner⟩ packets := by
  rw [transcript_blind h, transcript_blind h', blind_db, blind_db]

/-- A missing user, and a user whose password is not the one that was sent. -/
theorem no_account_oracle_wrong_password :
    let nobody : Accounts := ⟨fun _ => none, fun _ _ _ => false⟩
    let joe : Accounts :=
      ⟨fun user => if user = ascii "joe" then some ⟨user, ascii "c:\\"⟩ else none,
      fun _ user password => user = ascii "joe" ∧ password = ascii "secret"⟩
    let throws := fun _ _ _ => false
    let packets := [⟨⟨Ssh2Msg.serviceRequest, putString (ascii "ssh-userauth")⟩, 0⟩,
      requestPacket (ascii "password") (0 :: putString (ascii "guess")),
      requestPacket (ascii "password") (0 :: putString (ascii "guess"))]
    letsIn ⟨nobody.db throws, 2, false⟩ packets = false ∧
      letsIn ⟨joe.db throws, 2, false⟩ packets = false ∧
      transcript ⟨nobody.db throws, 2, false⟩ packets =
        transcript ⟨joe.db throws, 2, false⟩ packets :=
  ⟨by decide +kernel, by decide +kernel,
    no_account_oracle _ _ _ 2 false _ (by decide +kernel) (by decide +kernel)⟩

end Shiesh.Auth
