import WsChat.Private
import WsChat.Formats
import WsChat.Lib.SideBySide

/-! Credentials stay with the server: what it sends and what it keeps depend on a key, a login or a password
only through what the services answer. -/
namespace WsChat
open Lib

/-- Two requests with the same sequence id and token whose credentials are of the same kinds, and two services that
answer the one as the other. -/
structure AuthServices.Alike (sv : AuthServices) (p : PacketAuth) (sv' : AuthServices) (p' : PacketAuth) : Prop where
  sequenceId : p'.sequenceId = p.sequenceId
  token : p'.token = p.token
  ukey : p'.ukey = [] ↔ p.ukey = []
  apiKey : p'.apiKey = [] ↔ p.apiKey = []
  login : (p'.name ≠ [] ∧ p'.password ≠ []) ↔ (p.name ≠ [] ∧ p.password ≠ [])
  construct : sv'.construct = sv.construct
  reconnect : sv'.reconnect = sv.reconnect
  gateApiKey : sv'.gateApiKey = sv.gateApiKey
  resetApiKey : sv'.resetApiKey = sv.resetApiKey
  gateLogin : sv'.gateLogin = sv.gateLogin
  resetLogin : sv'.resetLogin = sv.resetLogin
  keyAnswer : sv'.redisGet (utf8 "chat-key-" ++ p'.ukey) = sv.redisGet (utf8 "chat-key-" ++ p.ukey)
  sessionAnswer : ∀ id, sv'.redisGet (utf8 "session:" ++ id) = sv.redisGet (utf8 "session:" ++ id)
  apiKeyAnswer : sv'.getUserIdByApiKey p'.apiKey = sv.getUserIdByApiKey p.apiKey
  uidAnswer : ∀ uid, sv'.getUserByUid uid = sv.getUserByUid uid
  loginAnswer : sv'.getUserByLoginAndPassword p'.name p'.password = sv.getUserByLoginAndPassword p.name p.password

/-- Two events that differ at most in the credentials of a request that is answered alike. -/
inductive Event.Answered (env : Env) : Event → Event → Prop
  | same (e : Event) : Answered env e e
  | auth {now : Int} {k : ConnectionPtr} {msg msg' : Option Json} {sv sv' : AuthServices} {p p' : PacketAuth}
      (hmsg : (Act.message k msg sv).packet env = some (.auth p)) (hmsg' : (Act.message k msg' sv').packet env = some (.auth p'))
      (h : sv.Alike p sv' p') : Answered env ⟨now, .message k msg sv⟩ ⟨now, .message k msg' sv'⟩

def World.transcript (env : Env) (w : World) : List (ConnectionPtr × Bytes) :=
  w.sent.map fun x => (x.1, x.2.text env)

section
variable {env : Env} {sv sv' : AuthServices} {p p' : PacketAuth} {ip : Bytes} {sinid : Option Bytes} {α : Type}
  {w w' : World} {c : ClientPtr}

def AuthRun.SameUser (run run' : AuthRun) : Prop := run'.user = run.user

theorem AuthM.call_agree {call call' : AuthCall} {outcome outcome' : Except ExtFailure α} (h : outcome' = outcome) :
    Agree AuthRun.SameUser (AuthM.call call outcome) (AuthM.call call' outcome') := by
  subst h
  refine agree_bind (agree_modify fun run run' hrun => hrun) fun _ => ?_
  cases outcome' with
  | ok a => exact agree_pure a
  | error e => exact agree_throw (AuthExit.failed e)

theorem AuthM.callStd_agree {call call' : AuthCall} {outcome outcome' : Except Unit α} (h : outcome' = outcome) :
    Agree AuthRun.SameUser (AuthM.callStd call outcome) (AuthM.callStd call' outcome') :=
  AuthM.call_agree (congrArg _ h)

theorem AuthM.initUser_agree (user : DbUserInfo) :
    Agree AuthRun.SameUser (AuthM.initUser user) (AuthM.initUser user) := agree_modify fun _ _ _ => rfl

theorem AuthM.gate_agree {outcome outcome' : Except Unit Bool} (h : outcome' = outcome) :
    Agree AuthRun.SameUser (AuthM.gate ip outcome) (AuthM.gate ip outcome') := by
  refine agree_bind (AuthM.callStd_agree h) fun allowed => ?_
  cases allowed with
  | true => exact agree_pure ()
  | false => exact agree_throw _

theorem PacketAuth.findUid_agree (h : sv.Alike p sv' p') :
    Agree AuthRun.SameUser (PacketAuth.findUid env sv ip sinid p) (PacketAuth.findUid env sv' ip sinid p') := by
  unfold PacketAuth.findUid
  simp only [h.token, ne_eq, h.ukey, h.apiKey, h.login]
  by_cases htoken : p.token = []
  · rw [if_neg (not_not.mpr htoken), if_neg (not_not.mpr htoken)]
    by_cases hukey : p.ukey = []
    · rw [if_neg (not_not.mpr hukey), if_neg (not_not.mpr hukey)]
      by_cases hapi : p.apiKey = []
      · rw [if_neg (not_not.mpr hapi), if_neg (not_not.mpr hapi)]
        by_cases hlogin : ¬ p.name = [] ∧ ¬ p.password = []
        · rw [if_pos hlogin, if_pos hlogin]
          exact agree_pure 0
        · rw [if_neg hlogin, if_neg hlogin]
          cases sinid with
          | none => exact agree_pure 0
          | some id =>
            refine agree_bind (AuthM.callStd_agree (h.sessionAnswer id)) fun reply => ?_
            cases reply with
            | none => exact agree_pure 0
            | some reply =>
              dsimp only
              cases env.parse (streamWord reply) with
              | none => exact agree_pure 0
              | some session =>
                dsimp only
                cases PacketAuth.sessionUid session with
                | ok uid => exact agree_pure uid
                | error _ => exact agree_throw _
      · rw [if_pos hapi, if_pos hapi]
        refine agree_bind (AuthM.gate_agree h.gateApiKey) fun _ => ?_
        refine agree_bind (AuthM.call_agree h.apiKeyAnswer) fun found => ?_
        cases found with
        | none => exact agree_pure 0
        | some uid => exact agree_bind (AuthM.callStd_agree h.resetApiKey) fun _ => agree_pure uid
    · rw [if_pos hukey, if_pos hukey]
      refine agree_bind (AuthM.callStd_agree h.keyAnswer) fun reply => ?_
      cases reply with
      | none => exact agree_pure 0
      | some reply => exact agree_pure (streamInt reply)
  · rw [if_pos htoken, if_pos htoken]
    exact agree_pure 0

theorem PacketAuth.lookup_agree (h : sv.Alike p sv' p') (uid : Int) :
    Agree AuthRun.SameUser (PacketAuth.lookup sv ip p uid) (PacketAuth.lookup sv' ip p' uid) := by
  unfold PacketAuth.lookup
  simp only [h.login]
  by_cases huid : uid ≠ 0
  · rw [if_pos huid, if_pos huid]
    refine agree_bind (AuthM.call_agree (h.uidAnswer uid)) fun found => ?_
    cases found with
    | none => exact agree_pure ()
    | some info => exact AuthM.initUser_agree _
  · rw [if_neg huid, if_neg huid]
    by_cases hlogin : p.name ≠ [] ∧ p.password ≠ []
    · rw [if_pos hlogin, if_pos hlogin]
      refine agree_bind (AuthM.gate_agree h.gateLogin) fun _ => ?_
      refine agree_bind (AuthM.call_agree h.loginAnswer) fun found => ?_
      cases found with
      | none => exact agree_throw _
      | some info => exact agree_bind (AuthM.initUser_agree info) fun _ => AuthM.callStd_agree h.resetLogin
    · rw [if_neg hlogin, if_neg hlogin]
      exact agree_pure ()

theorem PacketAuth.authenticate_agree (h : sv.Alike p sv' p') :
    Agree AuthRun.SameUser (PacketAuth.authenticate env sv ip sinid p) (PacketAuth.authenticate env sv' ip sinid p') :=
  agree_bind (PacketAuth.findUid_agree h) (PacketAuth.lookup_agree h)

structure World.Looks (env : Env) (w w' : World) : Prop where
  state : w.SameState w'
  transcript : w.transcript env = w'.transcript env

theorem World.Looks.refl (w : World) : w.Looks env w := ⟨rfl, rfl⟩

theorem World.Looks.trans {w'' : World} (h : w.Looks env w') (h' : w'.Looks env w'') : w.Looks env w'' :=
  ⟨Eq.trans h.state h'.state, h.transcript.trans h'.transcript⟩

theorem World.transcript_past (o : List (ConnectionPtr × Wire)) (w : World) :
    (w.past o).transcript env = World.transcript env { w with sent := o } ++ w.transcript env :=
  List.map_append ..

theorem World.Looks.map {f : World → World} (hf : ∀ o w, f (World.past o w) = (f w).past o) (h : w.Looks env w') :
    (f w).Looks env (f w') := by
  obtain ⟨base, o, o', hbase, rfl, rfl⟩ := h.state.past
  have hpast : World.transcript env { base with sent := o } = World.transcript env { base with sent := o' } := by
    have hboth := h.transcript
    rwa [World.transcript_past, World.transcript_past, List.append_cancel_right_eq] at hboth
  rw [hf, hf]
  refine ⟨rfl, ?_⟩
  rw [World.transcript_past, World.transcript_past]
  exact congrArg (· ++ (f base).transcript env) hpast

theorem World.Looks.sendPacket {q q' : Packet} (hq : q.serialize = q'.serialize) (w : World) (c : ClientPtr) :
    (Client.sendPacket w c q).Looks env (Client.sendPacket w c q') := by
  have htext : (Wire.packet q).text env = (Wire.packet q').text env := congrArg env.write hq
  rw [Client.sendPacket_eq, Client.sendPacket_eq]
  refine ⟨rfl, ?_⟩
  unfold World.transcript World.mail
  rw [World.emit_sent, World.emit_sent, List.map_append, List.map_append, List.map_map, List.map_map]
  refine congrArg (w.sent.map _ ++ ·) (List.map_congr_left fun k _ => ?_)
  exact congrArg (Prod.mk k) htext

theorem PacketAuth.reply_serialize (h : sv.Alike p sv' p') (w : World) (c : ClientPtr) :
    (PacketAuth.reply w p c).serialize = (PacketAuth.reply w p' c).serialize := by
  have hshown : (PacketAuth.reply w p c).shown = (PacketAuth.reply w p' c).shown := by
    simp only [PacketAuth.reply, Packet.shown, PacketAuth.shown, h.sequenceId]
  rw [← Packet.serialize_shown (PacketAuth.reply w p c), hshown, Packet.serialize_shown]

theorem PacketAuth.answer_looks (h : sv.Alike p sv' p') (w : World) (c : ClientPtr) (result : Except AuthExit Unit) :
    (PacketAuth.answer sv p c result w).Looks env (PacketAuth.answer sv' p' c result w) := by
  have hrefuse : ∀ code info, p.refuse code info = p'.refuse code info := by
    intro code info
    rw [PacketAuth.refuse, PacketAuth.refuse, h.sequenceId]
  have hreply : (Client.sendPacket w c (PacketAuth.reply w p c)).Looks env
      (Client.sendPacket w c (PacketAuth.reply w p' c)) :=
    World.Looks.sendPacket (PacketAuth.reply_serialize h w c) w c
  unfold PacketAuth.answer
  cases result with
  | ok _ => exact hreply
  | error e =>
    cases e with
    | refused code info =>
      dsimp only
      rw [hrefuse]
      exact .refl _
    | failed f =>
      cases f with
      | std => exact hreply
      | db =>
        dsimp only
        rw [h.reconnect]
        cases sv.reconnect with
        | ok _ =>
          dsimp only
          rw [hrefuse]
          exact .refl _
        | error _ => exact hreply

theorem PacketAuth.processLogin_looks (h : sv.Alike p sv' p') (w : World) (c : ClientPtr) :
    (PacketAuth.processLogin env sv w c p).Looks env (PacketAuth.processLogin env sv' w c p') := by
  let ip := (w.clientAt c).lastClientIP
  let sinid := (w.clientAt c).connection.bind env.sinid
  have hagree : Agree AuthRun.SameUser (PacketAuth.authenticate env sv ip sinid p)
      (PacketAuth.authenticate env sv' ip sinid p') := PacketAuth.authenticate_agree h
  obtain ⟨hresult, huser⟩ := hagree {} {} rfl
  rw [PacketAuth.processLogin_eq, PacketAuth.processLogin_eq]
  dsimp only
  rw [← hresult, show _ = _ from huser]
  exact PacketAuth.answer_looks h _ c _

theorem PacketAuth.process_looks (h : sv.Alike p sv' p') (w : World) (c : ClientPtr) :
    (PacketAuth.process env sv w c p).Looks env (PacketAuth.process env sv' w c p') := by
  have htarget : PacketAuth.target w c p' = PacketAuth.target w c p := by
    unfold PacketAuth.target
    rw [h.token]
  unfold PacketAuth.process
  rw [h.construct, htarget]
  cases sv.construct with
  | error _ => exact World.Looks.sendPacket (PacketAuth.reply_serialize h w c) w c
  | ok _ =>
    dsimp only
    cases PacketAuth.target w c p with
    | none => exact PacketAuth.processLogin_looks h w c
    | some t =>
      refine World.Looks.map (f := fun w => (Server.reviveClient env w c t).1) ?_
        (World.Looks.sendPacket (PacketAuth.reply_serialize h w t) w c)
      intro o w
      rw [Server.reviveClient_past]

variable {e e' : Event}

theorem World.step_answered (w : World) (h : e.Answered env e') : (w.step env e).Looks env (w.step env e') := by
  cases h with
  | same e => exact .refl _
  | auth hmsg hmsg' h =>
    rename_i now k msg msg' sv sv' p p'
    by_cases hh : w.hung = true
    · rw [World.step_hung hh (by simp), World.step_hung hh (by simp)]
      exact .refl _
    have hh : w.hung = false := by simpa using hh
    cases hc : ClientsManager.findClientByConnection w k with
    | none =>
      have hnone : ClientsManager.findClientByConnection { w with now := now } k = none := hc
      rw [World.step_running hh, World.step_running hh, World.handle, World.handle, Server.onMessage, hnone,
        Server.onMessage, hnone]
      exact .refl _
    | some c =>
      rw [World.step_brings env now hh hc hmsg, World.step_brings env now hh hc hmsg']
      exact PacketAuth.process_looks h _ c

theorem World.Looks.step (h : w.Looks env w') (he : e.Answered env e') : (w.step env e).Looks env (w'.step env e') :=
  (World.step_answered w he).trans (World.Looks.map (f := fun w => w.step env e') (fun _ _ => World.step_past e') h)

theorem World.Looks.events {es es' : List Event} (h : w.Looks env w') (hes : List.Forall₂ (Event.Answered env) es es') :
    (es.foldl (World.step env) w).Looks env (es'.foldl (World.step env) w') := by
  induction hes generalizing w w' with
  | nil => exact h
  | cons he _ ih => exact ih (h.step he)

end

/-- Two runs whose requests differ in their credentials but are answered alike lead to the same state, and every
connection is sent the same bytes. -/
theorem run_credentials (env : Env) (es es' : List Event) (hes : List.Forall₂ (Event.Answered env) es es') :
    (run env es).SameState (run env es') ∧ (run env es).transcript env = (run env es').transcript env := by
  have hlooks : (run env es).Looks env (run env es') := (World.Looks.refl (World.boot env)).events hes
  exact ⟨hlooks.state, hlooks.transcript⟩

namespace Sample

def writesNames : Env := { surroundings with
  write := fun val => ((val.get (utf8 "name") >>= Json.asString).toOption).getD [] }

def otherLogin : Json :=
  .obj [(utf8 "type", .int 4), (utf8 "login", .str (utf8 "other")), (utf8 "password", .str (utf8 "hidden"))]

end Sample

theorem run_credentials_bob :
    let w := run Sample.writesNames [Sample.opens 0 1 97 Sample.mem_a, Sample.sends 1 1 Sample.login]
    let w' := run Sample.writesNames [Sample.opens 0 1 97 Sample.mem_a, Sample.sends 1 1 Sample.otherLogin]
    w.sent ≠ w'.sent ∧ w.transcript Sample.writesNames = [(⟨1⟩, utf8 "bob")] ∧ w.SameState w' ∧
      w.transcript Sample.writesNames = w'.transcript Sample.writesNames := by
  intro w w'
  have hmsg : (Sample.sends 1 1 Sample.login).act.packet Sample.surroundings =
      some (.auth { name := utf8 "login", password := utf8 "secret" }) := by decide +kernel
  have hmsg' : (Sample.sends 1 1 Sample.otherLogin).act.packet Sample.surroundings =
      some (.auth { name := utf8 "other", password := utf8 "hidden" }) := by decide +kernel
  have halike : Sample.bob.Alike { name := utf8 "login", password := utf8 "secret" } Sample.bob
      { name := utf8 "other", password := utf8 "hidden" } := by
    refine ⟨rfl, rfl, .rfl, .rfl, ?_, rfl, rfl, rfl, rfl, rfl, rfl, rfl, fun _ => rfl, rfl, fun _ => rfl, rfl⟩
    decide +kernel
  have hlogins := run_credentials Sample.writesNames
    [Sample.opens 0 1 97 Sample.mem_a, Sample.sends 1 1 Sample.login]
    [Sample.opens 0 1 97 Sample.mem_a, Sample.sends 1 1 Sample.otherLogin]
    (.cons (.same _) (.cons (.auth hmsg hmsg' halike) .nil))
  exact ⟨by decide +kernel, by decide +kernel, hlogins⟩

end WsChat
