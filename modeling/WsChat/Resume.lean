import WsChat.Bans
import WsChat.Sessions

/-! A client takes over the session of another one by its token. -/
namespace WsChat
open Lib Relation ClientsManager

section
variable {env : Env} {c t : ClientPtr} {k : ConnectionPtr} {w : World}

def World.revivedClient (env : Env) (w : World) (c t : ClientPtr) (k : ConnectionPtr) : ClientPtr → Client :=
  Function.update (Function.update w.clientAt c { w.clientAt c with rooms := ∅, connection := none }) t
    { w.clientAt t with connection := some k, lastClientIP := env.realIp k, lastPacketTime := w.now }

variable (env) in
theorem Server.reviveClient_spec (hl : w.membership.Linked) (hct : c ≠ t)
    (hk : (w.clientAt c).connection = some k) :
    ∃ manager clamped closing memberAt out,
      Server.reviveClient env w c t = ({ w with
        manager := manager
        clamped := clamped
        closing := closing
        clientAt := w.revivedClient env c t k
        memberAt := memberAt
        roomAt := fun r => if r ∈ (w.clientAt c).rooms then w.withoutMember c r else w.roomAt r
        sent := w.sent ++ out }, true) ∧
      (∀ m, (w.memberAt m).client ≠ t → memberAt m = w.memberAt m) ∧
      (∀ m, ∃ stat seen, memberAt m = { w.memberAt m with status := stat, lastSeenTime := seen }) ∧
      ∀ r ∈ (w.clientAt t).rooms, ∀ m ∈ (w.roomAt r).members, (w.memberAt m).client = t →
        (memberAt m).status = .online := by
  obtain ⟨manager, clamped, closing, he⟩ := Server.reviveClient_normal env hl hct hk
  set w₁ : World := (w.withdraw c).plug env t k with hw₁
  have hin : ∀ s n, n ∈ (w₁.roomAt s).members ↔ n ∈ (w.roomAt s).members ∧ (w.memberAt n).client ≠ c :=
    World.mem_without hl c
  have hclients : w₁.clientAt = w.revivedClient env c t k := by
    unfold World.revivedClient
    rw [hw₁]
    simp [World.plug, World.withdraw, Function.update_of_ne (Ne.symm hct)]
  dsimp only at he
  generalize List.flatMap _ (w.clientAt t).rooms.elems = out at he
  refine ⟨manager, clamped, closing, (w₁.settle t (w.clientAt t).rooms.elems .online).memberAt,
    (w.clientAt c).rooms.elems.flatMap (w.farewell c) ++ out, he.trans ?_, ?_, ?_, ?_⟩
  · rw [← hclients, ← List.append_assoc]
    rfl
  · intro m hm
    refine if_neg ?_
    rintro ⟨r, -, hfound⟩
    exact hm (Room.mem_of_findMemberByClient hfound).2
  · intro m
    simp only [World.settle]
    split
    · exact ⟨_, _, rfl⟩
    · exact ⟨(w.memberAt m).status, (w.memberAt m).lastSeenTime, rfl⟩
  · intro r hr m hm hmt
    have hmc : (w.memberAt m).client ≠ c := fun he => hct (he.symm.trans hmt)
    have hfound : Room.findMemberByClient w₁ r t = some m := by
      refine IterSet.find?_unique ((hin r m).mpr ⟨hm, hmc⟩) (decide_eq_true hmt) ?_ (List.Perm.refl _)
      intro n hn hnt
      exact hl.unique r n ((hin r n).mp hn).1 m hm ((of_decide_eq_true hnt).trans hmt.symm)
    simp only [World.settle]
    rw [if_pos ⟨r, hr, hfound⟩]
    rfl

end

/-- The session of the client `t` goes on with the connection `k` of the client `c`, which is
gone. -/
structure Resumed (env : Env) (c t : ClientPtr) (k : ConnectionPtr) (p : PacketAuth) (w w' : World) : Prop where
  gone : c ∉ w'.manager.clients ∧ (∀ k', findClientByConnection w' k' ≠ some c) ∧
    (∀ token, findClientByToken w' token ≠ some c) ∧ (∀ r, r ∉ (w'.clientAt c).rooms) ∧
    ∀ r, ∀ m ∈ (w'.roomAt r).members, (w'.memberAt m).client ≠ c
  owns : findClientByConnection w' k = some t ∧ (w'.clientAt t).connection = some k
  former : ∀ k', (w.clientAt t).connection = some k' → ∀ es sv msg,
    let w'' := List.foldl (World.step env) w' es
    findClientByConnection w'' k' = none ∧ Server.onMessage env sv w'' k' msg = w''
  kept : t ∈ w'.manager.clients ∧ (w'.clientAt t).uid = (w.clientAt t).uid ∧
    (w'.clientAt t).name = (w.clientAt t).name ∧ (w'.clientAt t).token = (w.clientAt t).token ∧
    (w'.clientAt t).rooms = (w.clientAt t).rooms
  members : ∀ r, ∀ m ∈ (w.roomAt r).members, (w.memberAt m).client = t →
    m ∈ (w'.roomAt r).members ∧ (w'.memberAt m).status = .online ∧
      w'.memberAt m = { w.memberAt m with
        status := (w'.memberAt m).status, lastSeenTime := (w'.memberAt m).lastSeenTime }
  others : ∀ d, d ≠ c → d ≠ t → (d ∈ w'.manager.clients ↔ d ∈ w.manager.clients) ∧
    w'.clientAt d = w.clientAt d ∧
    (∀ k', findClientByConnection w' k' = some d ↔ findClientByConnection w k' = some d) ∧
    (∀ token, findClientByToken w' token = some d ↔ findClientByToken w token = some d) ∧
    ∀ r, ∀ m ∈ (w.roomAt r).members, (w.memberAt m).client = d →
      m ∈ (w'.roomAt r).members ∧ w'.memberAt m = w.memberAt m
  nobody : ∀ r, ∀ m ∈ (w'.roomAt r).members, m ∈ (w.roomAt r).members
  reply : ∃ out, w'.sent = w.sent ++ (k, Wire.packet (.auth { p with
    userId := (w.clientAt t).uid, name := (w.clientAt t).name, token := (w.clientAt t).token })) :: out

section
variable {env : Env} {c t : ClientPtr} {k : ConnectionPtr} {w : World}

theorem Server.reviveClient_resumes (h : WF env w) (hc : c ∈ w.manager.clients) (ht : t ∈ w.manager.clients)
    (hct : c ≠ t) (hk : (w.clientAt c).connection = some k) (p : PacketAuth) :
    let w₁ := w.emit [(k, .packet (PacketAuth.reply w p t))]
    (Server.reviveClient env w₁ c t).2 = true ∧ Resumed env c t k p w (Server.reviveClient env w₁ c t).1 := by
  intro w₁
  have h₁ : WF env w₁ := h.frame (Frame.emit w _)
  have hw' : WF env (Server.reviveClient env w₁ c t).1 := h₁.revive hc ht hct hk
  have hclients : (Server.reviveClient env w₁ c t).1.manager.clients = w.manager.clients.erase c := by
    have hev := (ClientsManager.reviveClient_evolves h₁.indexed h₁.linked hc ht hct hk).then_frame
      (Server.reviveClient_frame w₁ c t)
    have hreg : (Server.reviveClient env w₁ c t).1.registry.clients = (w₁.registry.unlink t).clients.erase c := by
      rw [hev.registry]
      rfl
    rw [Registry.unlink_clients] at hreg
    exact hreg
  obtain ⟨manager, clamped, closing, memberAt, out, heq, hothers, hmine, honline⟩ :=
    Server.reviveClient_spec env (w := w₁) h₁.linked hct hk
  rw [heq] at hw' hclients ⊢
  refine ⟨rfl, ?_⟩
  set w' : World := { w₁ with
    manager := manager, clamped := clamped, clientAt := w₁.revivedClient env c t k, memberAt := memberAt
    roomAt := fun r => if r ∈ (w₁.clientAt c).rooms then w₁.withoutMember c r else w₁.roomAt r
    sent := w₁.sent ++ out, closing := closing }
  have hat : w'.clientAt c = { w.clientAt c with rooms := ∅, connection := none } := by
    simp [w', World.revivedClient, hct, w₁]
  have hatt : w'.clientAt t = { w.clientAt t with
      connection := some k, lastClientIP := env.realIp k, lastPacketTime := w.now } := by
    simp [w', World.revivedClient, w₁]
  have hato : ∀ d, d ≠ c → d ≠ t → w'.clientAt d = w.clientAt d := fun d hdc hdt => by
    simp [w', World.revivedClient, hdc, hdt, w₁]
  have hin : ∀ d, d ∈ w'.manager.clients ↔ d ≠ c ∧ d ∈ w.manager.clients := fun d => by
    rw [hclients]
    exact h.indexed.nodup.mem_erase_iff
  have hroom : ∀ r m, m ∈ (w'.roomAt r).members ↔ m ∈ (w.roomAt r).members ∧ (w.memberAt m).client ≠ c :=
    World.mem_without h₁.linked c
  have hconn : ∀ k' d, findClientByConnection w' k' = some d ↔
      d ∈ w'.manager.clients ∧ (w'.clientAt d).connection = some k' := hw'.indexed.connIff
  have htoken : ∀ token d, findClientByToken w' token = some d ↔
      d ∈ w'.manager.clients ∧ (w'.clientAt d).token = token := hw'.indexed.tokenIff
  have hcgone : c ∉ w'.manager.clients := fun hc' => ((hin c).mp hc').1 rfl
  have htin : t ∈ w'.manager.clients := (hin t).mpr ⟨Ne.symm hct, ht⟩
  refine ⟨⟨hcgone, fun k' hk' => hcgone ((hconn k' c).mp hk').1, fun token hk' => hcgone ((htoken token c).mp hk').1,
    fun r hr => ?_, fun r m hm hmc => ?_⟩, ⟨(hconn k t).mpr ⟨htin, by rw [hatt]⟩, by rw [hatt]⟩, ?_,
    ⟨htin, by rw [hatt], by rw [hatt], by rw [hatt], by rw [hatt]⟩, ?_, ?_, fun r m hm => ((hroom r m).mp hm).1,
    ⟨out, ?_⟩⟩
  · rw [hat] at hr
    exact IterSet.not_mem_empty r hr
  · obtain ⟨_, _, he⟩ := hmine m
    refine ((hroom r m).mp hm).2 ?_
    rw [← hmc]
    exact (congrArg Member.client he).symm
  · -- the former connection is left over
    intro k' hk' es sv msg
    have hnone : findClientByConnection w' k' = none := by
      refine Option.eq_none_iff_forall_ne_some.mpr fun d hd => ?_
      obtain ⟨hdin, hdk⟩ := (hconn k' d).mp hd
      obtain ⟨hdc, hdin⟩ := (hin d).mp hdin
      by_cases hdt : d = t
      · subst hdt
        rw [hatt] at hdk
        have hkk : k = k' := Option.some.inj hdk
        subst hkk
        exact hct (h.indexed.conn_inj hc ht hk hk')
      · rw [hato d hdc hdt] at hdk
        exact hdt (h.indexed.conn_inj hdin ht hdk hk')
    have hretired := retired_events hw' ⟨h.indexed.opened t ht k' hk', hnone⟩ es
    exact ⟨hretired.2, Server.onMessage_retired hretired sv msg⟩
  · intro r m hm hmt
    obtain ⟨stat, seen, he⟩ := hmine m
    refine ⟨(hroom r m).mpr ⟨hm, by rw [hmt]; exact Ne.symm hct⟩, ?_, ?_⟩
    · exact honline r ((h.linked.joinedIff t r).mpr ⟨m, hm, hmt⟩) m hm hmt
    · change memberAt m = { w.memberAt m with status := (memberAt m).status, lastSeenTime := (memberAt m).lastSeenTime }
      rw [he]
      rfl
  · intro d hdc hdt
    have hd : d ∈ w'.manager.clients ↔ d ∈ w.manager.clients := (hin d).trans (and_iff_right hdc)
    refine ⟨hd, hato d hdc hdt, fun k' => ?_, fun token => ?_, fun r m hm hmd => ⟨?_, ?_⟩⟩
    · rw [hconn, hd, hato d hdc hdt]
      exact (h.indexed.connIff k' d).symm
    · rw [htoken, hd, hato d hdc hdt]
      exact (h.indexed.tokenIff token d).symm
    · exact (hroom r m).mpr ⟨hm, by rw [hmd]; exact hdc⟩
    · exact hothers m (by rw [← hmd] at hdt; exact hdt)
  · simp [w', w₁, PacketAuth.reply]

theorem Resumed.of_touch {p : PacketAuth} {w' : World} {f : Client → Client} (hct : c ≠ t)
    (h : Resumed env c t k p (w.modifyClient c f) w') : Resumed env c t k p w w' := by
  have hother : ∀ d, d ≠ c → (w.modifyClient c f).clientAt d = w.clientAt d := fun d hd => by simp [hd]
  have ht := hother t (Ne.symm hct)
  obtain ⟨hgone, howns, hformer, hkept, hmembers, hothers, hnobody, hreply⟩ := h
  rw [ht] at hformer hkept hreply
  refine ⟨hgone, howns, hformer, hkept, hmembers, fun d hdc hdt => ?_, hnobody, hreply⟩
  have hd := hothers d hdc hdt
  rw [hother d hdc] at hd
  exact hd

theorem PacketAuth.target_eq (h : WF env w) {p : PacketAuth} (ht : t ∈ w.manager.clients) (htc : t ≠ c)
    (htok : (w.clientAt t).token = p.token) : PacketAuth.target w c p = some t := by
  have hne : p.token ≠ [] := htok ▸ h.indexed.tokens t ht
  have hlook : findClientByToken w p.token = some t := (h.indexed.tokenIff p.token t).mpr ⟨ht, htok⟩
  unfold PacketAuth.target
  rw [if_neg hne, hlook]
  exact Option.filter_some_pos (by simpa using htc)

end

/-- An auth packet with the token of another client resumes the session of that client, unless
Redis, the gate or the database cannot even be set up. -/
theorem run_resume_lossless (env : Env) (es : List Event) (sv : AuthServices) (k : ConnectionPtr)
    (msg : Option Json) (p : PacketAuth) (c t : ClientPtr)
    (hc : findClientByConnection (run env es) k = some c)
    (hmsg : msg.map (Packet.read env.unset) = some (.ok (some (.auth p)))) (hsv : sv.construct = .ok ())
    (ht : t ∈ (run env es).manager.clients) (htc : t ≠ c)
    (htok : ((run env es).clientAt t).token = p.token) :
    let w := run env es
    let w' := Server.onMessage env sv w k msg
    let w₁ := Client.sendPacket (w.modifyClient c fun cli => { cli with lastPacketTime := w.now }) c
      (.auth { p with
        userId := (w.clientAt t).uid, name := (w.clientAt t).name, token := (w.clientAt t).token })
    Resumed env c t k p w w' ∧ w' = (Server.reviveClient env w₁ c t).1 ∧
      (Server.reviveClient env w₁ c t).2 = true := by
  intro w w' w₁
  have h : WF env w := wf_run env es
  obtain ⟨hcl, hk⟩ := ClientsManager.findClientByConnection_spec h hc
  have hhandler : w' = PacketAuth.process env sv
      (w.modifyClient c fun cli => { cli with lastPacketTime := w.now }) c p := by
    simp only [w', Server.onMessage, w, hc, Client.onPacket, hmsg, Packet.process]
  have htouch : Frame w (w.modifyClient c fun cli => { cli with lastPacketTime := w.now }) :=
    Frame.modifyClient w c _ rfl rfl rfl rfl
  have hk₀ : ((w.modifyClient c fun cli => { cli with lastPacketTime := w.now }).clientAt c).connection =
      some k := by simpa using hk
  have hat : (w.modifyClient c fun cli => { cli with lastPacketTime := w.now }).clientAt t =
      w.clientAt t := by simp [htc]
  have hclients : (w.modifyClient c fun cli => { cli with lastPacketTime := w.now }).manager.clients =
      w.manager.clients := rfl
  have hback : ∀ {w'}, Resumed env c t k p
      (w.modifyClient c fun cli => { cli with lastPacketTime := w.now }) w' → Resumed env c t k p w w' :=
    fun hr => hr.of_touch (Ne.symm htc)
  have h₀ := h.frame htouch
  have hw₁ : w₁ = Client.sendPacket (w.modifyClient c fun cli => { cli with lastPacketTime := w.now }) c
      (.auth { p with
        userId := (w.clientAt t).uid, name := (w.clientAt t).name, token := (w.clientAt t).token }) := rfl
  generalize w.modifyClient c (fun cli => { cli with lastPacketTime := w.now }) = w₀ at *
  rw [← hclients] at hcl ht
  have hreply : PacketAuth.reply w₀ p t = .auth { p with
      userId := (w.clientAt t).uid, name := (w.clientAt t).name, token := (w.clientAt t).token } := by
    rw [PacketAuth.reply, hat]
  have hprocess : w' = (Server.reviveClient env w₁ c t).1 := by
    rw [hhandler, PacketAuth.process, hsv, PacketAuth.target_eq h₀ ht htc (by rw [hat]; exact htok)]
    dsimp only
    rw [hreply, ← hw₁]
  have hsend : w₁ = w₀.emit [(k, .packet (PacketAuth.reply w₀ p t))] := by
    rw [hw₁, ← hreply, Client.sendPacket_eq, World.mail, hk₀]
    rfl
  obtain ⟨hok, hresumed⟩ := Server.reviveClient_resumes h₀ hcl ht (Ne.symm htc) hk₀ p
  rw [← hsend] at hok hresumed
  rw [← hprocess] at hresumed
  exact ⟨hback hresumed, hprocess, hok⟩

def Sample.tokenText (letter : UInt8) : Bytes := List.replicate tokenLength letter

def Sample.resume (letter : UInt8) : Json := .obj [(utf8 "type", .int 4), (utf8 "token", .str (tokenText letter))]

def Sample.lost : List Event :=
  room ++ [sends 7 2 (line (utf8 "hello")), ⟨8, .failed ⟨2⟩⟩, opens 9 3 99 mem_c]

theorem run_resume_lossless_guest :
    let w := run Sample.surroundings Sample.lost
    (⟨0⟩ : RoomPtr) ∈ (w.clientAt ⟨1⟩).rooms ∧ (w.roomAt ⟨0⟩).history ≠ [] ∧
      Resumed Sample.surroundings ⟨2⟩ ⟨1⟩ ⟨3⟩ { token := Sample.tokenText 98 } w
        (Server.onMessage Sample.surroundings Sample.bob w ⟨3⟩ (some (Sample.resume 98))) :=
  ⟨by decide +kernel, by decide +kernel,
    (run_resume_lossless Sample.surroundings Sample.lost Sample.bob ⟨3⟩ (some (Sample.resume 98))
      { token := Sample.tokenText 98 } ⟨2⟩ ⟨1⟩ (by decide +kernel) (by rfl) rfl (by decide +kernel)
      (by decide) (by decide +kernel)).1⟩

def Sample.pair : List Event := [opens 0 1 97 mem_a, opens 1 2 98 mem_b]

/-- Without Redis the second client keeps its connection and its own identity. -/
theorem resume_refused_without_redis :
    let w := run Sample.surroundings Sample.pair
    let w' := Server.onMessage Sample.surroundings { Sample.bob with construct := .error () } w ⟨2⟩
      (some (Sample.resume 97))
    findClientByConnection w ⟨2⟩ = some ⟨1⟩ ∧ ⟨0⟩ ∈ w.manager.clients ∧
      (w.clientAt ⟨0⟩).token = Sample.tokenText 97 ∧
      (some (Sample.resume 97)).map (Packet.read {}) = some (.ok (some (.auth { token := Sample.tokenText 97 }))) ∧
      ¬ Resumed Sample.surroundings ⟨1⟩ ⟨0⟩ ⟨2⟩ { token := Sample.tokenText 97 } w w' := by
  intro w w'
  refine ⟨by decide +kernel, by decide +kernel, by decide +kernel, by rfl, fun h => ?_⟩
  have hkept : findClientByConnection w' ⟨2⟩ = some ⟨1⟩ := by decide +kernel
  rw [h.owns.1] at hkept
  cases hkept

end WsChat
