import Shiesh.Auth.Model

/-!
# What the Authentication Phase Sends

The types of all packets that the handlers of the authentication phase send, also when
they end the thread.
-/

namespace Shiesh.Auth

open Shiesh.Lib

variable (env : AuthEnv)

def IsReply (p : Packet) : Prop :=
  p.type ∈ [Ssh2Msg.unimplemented, Ssh2Msg.serviceAccept, Ssh2Msg.userauthFailure,
    Ssh2Msg.userauthSuccess, Ssh2Msg.userauthBanner]

/-- Only replies have been sent. -/
def OnlyReplies (s : AuthState) : Prop := ∀ p ∈ s.sent, IsReply p

theorem packetSend_keeps {type : UInt8} (payload : Bytes) (h : IsReply ⟨type, payload⟩) :
    Keeps OnlyReplies (packetSend type payload) := by
  apply Keeps.modify
  intro s hs p hp
  rcases List.mem_append.mp hp with hp | hp
  · exact hs p hp
  · cases List.mem_singleton.mp hp
    exact h

theorem reading_keeps {α : Type} (g : Get α) : Keeps OnlyReplies (reading g) := by
  intro s hs
  simp only [reading, wp_zoom]
  exact wp_intro (fun _ _ _ => hs) (fun _ _ _ => hs)

/-- A change of the state that sends nothing. -/
theorem modify_keeps {f : AuthState → AuthState} (h : ∀ s, (f s).sent = s.sent) :
    Keeps OnlyReplies (modify f : AuthM Unit) :=
  .modify fun s hs p hp => hs p (h s ▸ hp)

theorem inputServiceRequest_keeps : Keeps OnlyReplies inputServiceRequest := by
  apply (reading_keeps _).bind
  intro service
  apply (reading_keeps _).bind
  intro _
  apply Keeps.get.bind
  intro s
  apply Keeps.ite
  · refine .bind (modify_keeps fun _ => rfl) fun _ => ?_
    exact packetSend_keeps _ (by simp [IsReply])
  · exact .throw _

theorem userauth_keeps (m : Authmethod) : Keeps OnlyReplies (m.userauth env) := by
  cases m with
  | none =>
    unfold Authmethod.userauth userauthNone
    refine .bind (modify_keeps fun _ => rfl) fun _ => ?_
    apply (reading_keeps _).bind
    intro _
    exact .pure _
  | passwd =>
    apply (reading_keeps _).bind
    intro change
    apply (reading_keeps _).bind
    intro password
    apply Keeps.ite
    · apply (reading_keeps _).bind
      intro _
      apply (reading_keeps _).bind
      intro _
      exact .pure _
    · apply (reading_keeps _).bind
      intro _
      apply Keeps.get.bind
      intro s
      apply Keeps.ite
      · exact .pure _
      · refine .bind ?_ fun _ => .pure _
        apply Keeps.get.bind
        intro s'
        cases env.authPasswd s'.attempt s'.user (cstr password) with
        | none => exact .throw _
        | some result => exact .pure _

theorem userauthFinish_keeps (authenticated : Bool) (method : Bytes) :
    Keeps OnlyReplies (userauthFinish env authenticated method) := by
  apply Keeps.get.bind
  intro s
  apply Keeps.ite
  · exact .throw _
  · apply Keeps.ite
    · exact .pure _
    · apply Keeps.ite
      · refine .bind (modify_keeps fun _ => rfl) fun _ => ?_
        apply (packetSend_keeps _ (by simp [IsReply])).bind
        intro _
        exact modify_keeps fun _ => rfl
      · have htail : Keeps OnlyReplies (do
            let s ← get
            if s.failures ≥ env.maxLoginAttempts then
              throw (.disconnect "Too many authentication failures for %.100s" [.str s.user])
            else
              packetSend Ssh2Msg.userauthFailure (putCstring (authmethodsGet s) ++ [0]) :
            AuthM Unit) := by
          apply Keeps.get.bind
          intro s
          apply Keeps.ite
          · exact .throw _
          · exact packetSend_keeps _ (by simp [IsReply])
        apply Keeps.ite
        · exact .bind (modify_keeps fun _ => rfl) fun _ => htail
        · exact htail

theorem setupAuthctxt_keeps (rawUser rawService : Bytes) :
    Keeps OnlyReplies (setupAuthctxt env rawUser rawService) := by
  intro s hs
  simp only [setupAuthctxt, wp_bind, wp_get, wp_set]
  have hs' : OnlyReplies { s with attempt := s.attempt + 1 } := hs
  split
  · have hfirst : Keeps OnlyReplies (userauthBanner env) := by
      apply Keeps.ite
      · exact .pure _
      · exact packetSend_keeps _ (by simp [IsReply])
    rw [wp_update]
    exact hfirst _ hs'
  · exact Keeps.ite (Keeps.throw _) (Keeps.pure _) _ hs'

theorem inputUserauthRequest_keeps :
    Keeps OnlyReplies (inputUserauthRequest env) := by
  apply (reading_keeps _).bind
  intro user
  apply (reading_keeps _).bind
  intro service
  apply (reading_keeps _).bind
  intro method
  apply (setupAuthctxt_keeps env user service).bind
  intro _
  refine .bind (modify_keeps fun _ => rfl) fun _ => ?_
  apply Keeps.get.bind
  intro s
  cases authmethodLookup s (cstr method) with
  | none => exact userauthFinish_keeps env false _
  | some m => exact (userauth_keeps env m).bind fun _ => userauthFinish_keeps env _ _

/-- **Replies.** Whatever message is dispatched, the packets sent are replies of the
authentication protocol or UNIMPLEMENTED. -/
theorem dispatchMsg_keeps (type : UInt8) (seqnr : UInt32) :
    Keeps OnlyReplies (dispatchMsg env type seqnr) := by
  apply Keeps.get.bind
  intro s
  cases s.dispatch type with
  | serviceRequest => exact inputServiceRequest_keeps
  | userauthRequest => exact inputUserauthRequest_keeps env
  | ignored => exact .pure _
  | unexpected => exact packetSend_keeps _ (by simp [IsReply])

end Shiesh.Auth
