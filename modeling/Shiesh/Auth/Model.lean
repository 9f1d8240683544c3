import Shiesh.Wire

/-!
# The Authentication Phase

`do_authentication2` and what it calls: the dispatcher of the phase, the two request
handlers of `auth2.cpp`, the methods "none" and "password", and `userauth_finish`.

The input is the sequence of packets that `packet_read_poll2` returns, each with its
sequence number. What the server sends is appended to `sent`. The user database is a
parameter: `User::find_allowed` and `User::auth_passwd` are SQL queries.
-/

namespace Shiesh.Auth

open Shiesh.Lib

/-! ## State -/

structure User where
  userName : Bytes
  homeDir : Bytes
  deriving DecidableEq, Repr

/-- The user database. The answer of `auth_passwd` may differ from one call to the next,
so it also depends on `authctxt->attempt`; `none` is a `soci_error` thrown by the query.
`find_allowed` is called once and returns a null pointer on such an error. -/
structure UserDb where
  findAllowed : Bytes → Option User
  authPasswd : Nat → Bytes → Bytes → Option Bool

/-- What the phase is run with: the database, `Options::get_max_login_attempts ()`, and
whether `datafellows ()` has `SSH_BUG_BANNER` for this client. -/
structure AuthEnv extends UserDb where
  maxLoginAttempts : Nat
  bugBanner : Bool

/-- An entry of `dispatch[]` in `AuthDispatcher`. -/
inductive Handler where
  | unexpected
  | serviceRequest
  | userauthRequest
  | ignored
  deriving DecidableEq, Repr

/-- A packet returned by `packet_read_poll2 (&seqnr)`. -/
structure Received extends Packet where
  seqnr : UInt32
  deriving DecidableEq, Repr

structure AuthState where
  -- `Authctxt`, zeroed by its constructor
  success : Bool := false
  postponed : Bool := false
  valid : Bool := false
  attempt : Nat := 0
  failures : Nat := 0
  serverCausedFailure : Bool := false
  user : Bytes := []
  service : Bytes := []
  pw : Option User := none
  style : Option Bytes := none
  role : Option Bytes := none
  -- `CoreConnection`
  noneAuthMethodEnabled : Bool := true
  passwordAuthentication : Bool := true
  incomingPacket : Bytes := []
  -- `dispatch[SSH2_MSG_USERAUTH_REQUEST]`
  userauthRequestMsg : Handler := .unexpected
  sent : List Packet := []
  deriving DecidableEq, Repr

abbrev AuthM := EStateM Halt AuthState

/-- Read from `incoming_packet`. -/
def reading {α : Type} (g : Get α) : AuthM α :=
  zoom AuthState.incomingPacket (fun b s => { s with incomingPacket := b }) g

/-- `packet_start (type)`, the `packet_put_*` calls and `packet_send ()`. -/
def packetSend (type : UInt8) (payload : Bytes) : AuthM Unit :=
  modify fun s => { s with sent := s.sent ++ [⟨type, payload⟩] }

/-! ## Requests -/

def inputServiceRequest : AuthM Unit := do
  let service ← reading packetGetString
  reading packetCheckEom
  let s ← get
  if cstr service = ascii "ssh-userauth" ∧ s.success = false then do
    -- `authDispatcher->enable_userauth_request_msg ()`
    modify fun s => { s with userauthRequestMsg := .userauthRequest }
    packetSend Ssh2Msg.serviceAccept (putCstring service)
  else
    throw (.disconnect "bad service request %s" [.str (cstr service)])

/-- The user name of a request, cut in place at the first `'/'` (role) and then at the
first `':'` (style); without a style in the name it may stand in the role. -/
def splitUser (user : Bytes) : Bytes × Option Bytes × Option Bytes :=
  let (user, role) := cutAt 0x2f (cstr user)
  match cutAt 0x3a user with
  | (user, some style) => (user, some style, role)
  | (user, none) =>
    match role.map (cutAt 0x3a) with
    | some (role, some style) => (user, some style, some role)
    | _ => (user, none, role)

inductive Authmethod where
  | none
  | passwd
  deriving DecidableEq, Repr

def Authmethod.name : Authmethod → Bytes
  | .none => ascii "none"
  | .passwd => ascii "password"

def Authmethod.enabled (s : AuthState) : Authmethod → Bool
  | .none => s.noneAuthMethodEnabled
  | .passwd => s.passwordAuthentication

def authmethods : List Authmethod := [.none, .passwd]

def authmethodLookup (s : AuthState) (name : Bytes) : Option Authmethod :=
  authmethods.find? fun m => m.enabled s && name == m.name

/-- The names offered in a failure reply. -/
def authmethodsGet (s : AuthState) : Bytes :=
  let names := (authmethods.filter fun m => m.name != ascii "none" && m.enabled s).map
    Authmethod.name
  (names.intersperse (ascii ",")).flatten

/-! ## Methods -/

def userauthNone : AuthM Bool := do
  modify fun s => { s with noneAuthMethodEnabled := false }
  reading packetCheckEom
  pure false

variable (env : AuthEnv)

/-- `sys_auth_passwd`, taken to return the outcome of `User::auth_passwd`. -/
def sysAuthPasswd (password : Bytes) : AuthM Bool := do
  let s ← get
  match env.authPasswd s.attempt s.user password with
  | some result => pure result
  | none => throw (.exception "soci_error")

def authPassword (password : Bytes) : AuthM Bool := do
  let ok := (← get).valid
  if cstr password = [] then
    pure false
  else do
    let result ← sysAuthPasswd env (cstr password)
    pure (result && ok)

def userauthPasswd : AuthM Bool := do
  let change ← reading packetGetChar
  let password ← reading packetGetString
  if change ≠ 0 then do
    -- the new password is discarded, changing it is not supported
    let _ ← reading packetGetString
    reading packetCheckEom
    pure false
  else do
    reading packetCheckEom
    authPassword env password

def Authmethod.userauth : Authmethod → AuthM Bool
  | .none => userauthNone
  | .passwd => userauthPasswd env

/-! ## The reply -/

def userauthFinish (authenticated : Bool) (method : Bytes) : AuthM Unit := do
  let s ← get
  if s.valid = false ∧ authenticated = true then
    throw (.fatal "INTERNAL ERROR: authenticated invalid user %s" [.str s.user])
  else if s.postponed then
    pure ()
  else if authenticated then do
    -- `authDispatcher->disable_userauth_request_msg ()`
    modify fun s => { s with userauthRequestMsg := .ignored }
    packetSend Ssh2Msg.userauthSuccess []
    modify fun s => { s with success := true }
  else do
    -- the first "none" request carries no penalty
    if s.serverCausedFailure = false ∧ (s.attempt > 1 ∨ method ≠ ascii "none") then
      modify fun s => { s with failures := s.failures + 1 }
    let s ← get
    if s.failures ≥ env.maxLoginAttempts then
      throw (.disconnect "Too many authentication failures for %.100s" [.str s.user])
    else
      packetSend Ssh2Msg.userauthFailure (putCstring (authmethodsGet s) ++ [0])

def userauthBanner : AuthM Unit :=
  if env.bugBanner then
    pure ()
  else
    packetSend Ssh2Msg.userauthBanner (putCstring (ascii "ShieSSH\n\n") ++ putCstring [])

/-- The context of the first request, or the check of a later one against it. -/
def setupAuthctxt (rawUser rawService : Bytes) : AuthM Unit := do
  let (user, style, role) := splitUser rawUser
  let service := cstr rawService
  let s ← get
  set { s with attempt := s.attempt + 1 }
  if s.attempt = 0 then do
    let pw := env.findAllowed user
    modify fun s => { s with
      pw := pw
      user := user
      valid := s.valid || (pw.isSome && service == ascii "ssh-connection")
      service := service
      style := style
      role := role }
    userauthBanner env
  else if user ≠ s.user ∨ service ≠ s.service then
    throw (.disconnect "Change of username or service not allowed: (%s,%s) -> (%s,%s)"
      [.str s.user, .str s.service, .str user, .str service])
  else
    pure ()

/-- The end of `input_userauth_request`: look up the method, run it and reply. -/
def tryMethod (method : Bytes) : AuthM Unit := do
  match authmethodLookup (← get) method with
  | some m => do
    let authenticated ← m.userauth env
    userauthFinish env authenticated method
  | none => userauthFinish env false method

def inputUserauthRequest : AuthM Unit := do
  let user ← reading packetGetString
  let service ← reading packetGetString
  let method ← reading packetGetString
  setupAuthctxt env user service
  modify fun s => { s with postponed := false, serverCausedFailure := false }
  tryMethod env (cstr method)

/-! ## The dispatcher -/

/-- `dispatch[type]` -/
def AuthState.dispatch (s : AuthState) (type : UInt8) : Handler :=
  if type = Ssh2Msg.serviceRequest then .serviceRequest
  else if type = Ssh2Msg.userauthRequest then s.userauthRequestMsg
  else .unexpected

/-- `AuthDispatcher::unexpected_msg`, by way of `protocol_error`. -/
def unexpectedMsg (seqnr : UInt32) : AuthM Unit :=
  packetSend Ssh2Msg.unimplemented (putU32 seqnr)

/-- `(this->*(dispatch[type])) (type, seqnr, ctxt)` -/
def dispatchMsg (type : UInt8) (seqnr : UInt32) : AuthM Unit := do
  match (← get).dispatch type with
  | .serviceRequest => inputServiceRequest
  | .userauthRequest => inputUserauthRequest env
  | .ignored => pure ()
  | .unexpected => unexpectedMsg seqnr

/-- One turn of `dispatch_run`: a packet that `packet_read_seqnr` keeps for itself ends
the turn early. -/
def dispatchStep (p : Received) : AuthM Unit := do
  modify fun s => { s with incomingPacket := p.payload }
  if ← reading (packetReadPoll p.type) then
    dispatchMsg env p.type p.seqnr
  else
    pure ()

/-- `do_authentication2`: the packets not read when the loop is left are returned. -/
def doAuthentication2 (packets : List Received) : AuthM (List Received) :=
  runUntil (dispatchStep env) AuthState.success packets

end Shiesh.Auth
