import WsChat.Rights
import WsChat.Sessions

/-! Requests and their direct replies: which packet answers a request, and whether it carries
the sequence id of the request. -/
namespace WsChat
open Lib Relation ClientsManager

def Packet.type : Packet → PacketType
  | .error _ => .error
  | .system _ => .system
  | .message _ => .message
  | .onlineList _ => .onlineList
  | .auth _ => .auth
  | .status _ => .status
  | .join _ => .join
  | .leave _ => .leave
  | .createRoom _ => .createRoom
  | .removeRoom _ => .removeRoom
  | .ping _ => .ping

def Packet.sequenceId : Packet → Option UInt32
  | .error p => p.sequenceId
  | .system p => p.sequenceId
  | .message p => p.sequenceId
  | .onlineList p => p.sequenceId
  | .auth p => p.sequenceId
  | .status p => p.sequenceId
  | .join p => p.sequenceId
  | .leave p | .createRoom p | .removeRoom p => p.sequenceId
  | .ping sequenceId => sequenceId

def PacketType.isRequest : PacketType → Bool
  | .onlineList | .auth | .join | .leave | .createRoom | .removeRoom => true
  | _ => false

/-- A direct reply to a request of the type: the packet of that type, the error whose source it
is, and the online list for a join. -/
def Packet.Answers (t : PacketType) : Packet → Prop
  | .error p => p.source = t
  | .onlineList _ => t = .onlineList ∨ t = .join
  | q => q.type = t

/-- On the connection goes a direct reply, unless the server is caught in a loop, and every direct
reply carries the sequence id. -/
def Correlated (k : ConnectionPtr) (t : PacketType) (sequenceId : Option UInt32) (w w' : World) : Prop :=
  ∃ out, w'.sent = w.sent ++ out ∧
    (w'.hung = false → ∃ q, (k, .packet q) ∈ out ∧ q.Answers t) ∧
    ∀ q, (k, .packet q) ∈ out → q.Answers t → q.sequenceId = sequenceId

def Wire.Mute (t : PacketType) (x : Wire) : Prop := ∀ q, x = .packet q → ¬ q.Answers t

def Muted (t : PacketType) (w w' : World) : Prop :=
  ∃ out, w'.sent = w.sent ++ out ∧ (∀ x ∈ out, x.2.Mute t) ∧ w'.hung = w.hung

section
variable {env : Env} {w w' : World} {c : ClientPtr} {k : ConnectionPtr} {t : PacketType} {s : Option UInt32}

theorem Correlated.sendPacket (hk : (w.clientAt c).connection = some k) {q : Packet} (hq : q.Answers t)
    (hs : q.sequenceId = s) : Correlated k t s w (Client.sendPacket w c q) := by
  have hmail : w.mail c (.packet q) = [(k, .packet q)] := by
    unfold World.mail
    rw [hk]
    rfl
  rw [Client.sendPacket_eq, hmail]
  refine ⟨_, rfl, fun _ => ⟨q, List.mem_singleton_self _, hq⟩, ?_⟩
  intro q' hq' _
  cases List.mem_singleton.mp hq'
  exact hs

theorem Correlated.after {w'' : World} (hm : Muted t w w') (h : Correlated k t s w' w'') :
    Correlated k t s w w'' := by
  obtain ⟨out, hsent, hout, -⟩ := hm
  obtain ⟨out', hsent', hsome, hall⟩ := h
  refine ⟨out ++ out', by rw [hsent', hsent, List.append_assoc], fun hh => ?_, fun q hq ha => ?_⟩
  · obtain ⟨q, hq, ha⟩ := hsome hh
    exact ⟨q, List.mem_append_right _ hq, ha⟩
  · rcases List.mem_append.mp hq with hq | hq
    · exact absurd ha (hout _ hq q rfl)
    · exact hall q hq ha

theorem Correlated.before {w'' : World} (h : Correlated k t s w w') (hm : Muted t w' w'') :
    Correlated k t s w w'' := by
  obtain ⟨out, hsent, hout, hhung⟩ := hm
  obtain ⟨out', hsent', hsome, hall⟩ := h
  refine ⟨out' ++ out, by rw [hsent, hsent', List.append_assoc], fun hh => ?_, fun q hq ha => ?_⟩
  · obtain ⟨q, hq, ha⟩ := hsome (hhung ▸ hh)
    exact ⟨q, List.mem_append_left _ hq, ha⟩
  · rcases List.mem_append.mp hq with hq | hq
    · exact hall q hq ha
    · exact absurd ha (hout _ hq q rfl)

theorem mute_mail {x : Wire} (h : x.Mute t) : ∀ y ∈ w.mail c x, y.2.Mute t := by
  intro y hy
  rw [(World.mem_mail.mp hy).2]
  exact h

theorem mute_roomMail {r : RoomPtr} {x : Wire} (h : x.Mute t) : ∀ y ∈ w.roomMail r x, y.2.Mute t := by
  intro y hy
  rw [(World.mem_roomMail.mp hy).2]
  exact h

theorem Wire.mute_status (ht : t.isRequest) (p : PacketStatus) : Wire.Mute t (.packet (.status p)) := by
  rintro q he ha
  cases he
  cases ha
  cases ht

theorem Wire.mute_system (ht : t.isRequest) (p : PacketSystem) : Wire.Mute t (.packet (.system p)) := by
  rintro q he ha
  cases he
  cases ha
  cases ht

theorem Wire.mute_raw (data : Bytes) : Wire.Mute t (.raw data) := by
  intro q he
  cases he

theorem World.Farewell.mute {r : RoomPtr} {x : Wire} (h : w.Farewell r x) (ht : t.isRequest)
    (hleave : t ≠ .leave) : x.Mute t := by
  rcases h with ⟨m, -, rfl⟩ | rfl
  · exact Wire.mute_status ht _
  · rintro q he ha
    cases he
    exact hleave ha.symm

namespace Muted

theorem refl (w : World) : Muted t w w := ⟨[], by simp, by simp, rfl⟩

theorem trans {w'' : World} (h : Muted t w w') (h' : Muted t w' w'') : Muted t w w'' := by
  obtain ⟨out, hsent, hout, hhung⟩ := h
  obtain ⟨out', hsent', hout', hhung'⟩ := h'
  refine ⟨out ++ out', by rw [hsent', hsent, List.append_assoc], fun x hx => ?_, hhung'.trans hhung⟩
  exact (List.mem_append.mp hx).elim (hout x) (hout' x)

theorem of_eq (hs : w'.sent = w.sent) (hh : w'.hung = w.hung) : Muted t w w' :=
  ⟨[], by simpa using hs, by simp, hh⟩

theorem emit {out : List (ConnectionPtr × Wire)} (h : ∀ x ∈ out, x.2.Mute t) : Muted t w (w.emit out) :=
  ⟨out, rfl, h, rfl⟩

theorem tell (ht : t.isRequest) (m : MemberPtr) (p : PacketSystem) :
    Muted t w (Member.sendPacket w m (.system p)) := by
  rw [Member.sendPacket_eq]
  exact emit (mute_mail (Wire.mute_system ht p))

theorem setNick (ht : t.isRequest) (m : MemberPtr) (nick : Bytes) : Muted t w (Member.setNick env w m nick) := by
  unfold Member.setNick
  dsimp only
  split
  · exact refl w
  · split
    · exact tell ht m _
    · rw [Room.sendPacketToAll_status]
      exact (of_eq rfl rfl).trans (emit (mute_roomMail (Wire.mute_status ht _)))

theorem checkNick (ht : t.isRequest) (r : RoomPtr) (m : MemberPtr) (nick : Bytes) :
    Muted t w (PacketJoin.checkNick w r m nick).2 := by
  have htell : ∀ w : World, ∀ nick why, Muted t w
      (w.emit (w.mail (w.memberAt m).client (.packet (PacketJoin.rejected nick why)))) :=
    fun w nick why => emit (mute_mail (Wire.mute_system ht _))
  unfold PacketJoin.checkNick
  simp only [Member.sendPacket_eq]
  split <;> dsimp only <;> split
  · exact (htell w _ _).trans (htell _ _ _)
  · exact htell w _ _
  · exact htell w _ _
  · exact refl w

theorem autoNick (ht : t.isRequest) (r : RoomPtr) (m : MemberPtr) (p : PacketJoin) :
    Muted t w (PacketJoin.autoNick w c r m p).2 := by
  unfold PacketJoin.autoNick
  split
  · obtain ⟨girl, color, hw⟩ := PacketJoin.restore_world w c r m
    have hrestore : Muted t w (PacketJoin.restore w c r m).2 := by
      rw [hw]
      exact of_eq rfl rfl
    exact hrestore.trans (checkNick ht r m _)
  · exact refl w

theorem settle (ht : t.isRequest) (m : MemberPtr) (nick : Bytes) : Muted t w (PacketJoin.settle env w m nick) := by
  unfold PacketJoin.settle
  dsimp only
  split
  · exact (tell ht m _).trans (tell ht m _)
  · exact (tell ht m _).trans (setNick ht m nick)

end Muted

theorem World.offlineMail_mute (ht : t.isRequest) (w : World) (r : RoomPtr) (m : MemberPtr) :
    ∀ x ∈ w.offlineMail r m, x.2.Mute t := by
  unfold World.offlineMail
  split
  · exact mute_roomMail (Wire.mute_status ht _)
  · exact fun x hx => by cases hx

theorem World.farewell_mute (ht : t.isRequest) (w : World) (d : ClientPtr) (r : RoomPtr) :
    ∀ x ∈ w.farewell d r, x.2.Mute t := by
  unfold World.farewell
  split
  · exact World.offlineMail_mute ht w r _
  · exact fun x hx => by cases hx

theorem mute_history (w : World) (c : ClientPtr) (l : List Bytes) :
    ∀ x ∈ l.flatMap (fun data => w.mail c (.raw data)), x.2.Mute t := by
  intro x hx
  obtain ⟨data, -, hx⟩ := List.mem_flatMap.mp hx
  exact mute_mail (Wire.mute_raw data) x hx

theorem World.homecoming_mute (w : World) (d : ClientPtr) (r : RoomPtr) :
    ∀ x ∈ w.homecoming d r, x.2.Mute .auth := by
  intro x hx
  unfold World.homecoming at hx
  split at hx
  · rename_i m _
    have hjoin : Wire.Mute .auth (.packet (.join (PacketJoin.ofMember w m none))) := by
      rintro q he ha
      cases he
      cases ha
    have hlist : Wire.Mute .auth (.packet (.onlineList (PacketOnlineList.ofRoom w r none))) := by
      rintro q he ha
      cases he
      rcases ha with ha | ha <;> cases ha
    simp only [World.welcomeMail, if_true, List.mem_append] at hx
    rcases hx with ((hx | hx) | hx) | hx
    · exact mute_mail hjoin x hx
    · exact mute_mail hlist x hx
    · exact mute_history w d _ x hx
    · split at hx
      · exact mute_roomMail (Wire.mute_status rfl _) x hx
      · cases hx
  · cases hx

theorem PacketOnlineList.process_replies (hk : (w.clientAt c).connection = some k) (p : PacketOnlineList)
    (hp : p.sequenceId = none) : Correlated k .onlineList none w (PacketOnlineList.process w c p) := by
  unfold PacketOnlineList.process
  split
  · exact Correlated.sendPacket hk rfl hp
  · exact Correlated.sendPacket hk (.inl rfl) rfl

theorem PacketAuth.answer_replies (hk : (w.clientAt c).connection = some k) (sv : AuthServices) (p : PacketAuth)
    (result : Except AuthExit Unit) : Correlated k .auth p.sequenceId w (PacketAuth.answer sv p c result w) := by
  unfold PacketAuth.answer
  split
  · exact Correlated.sendPacket hk rfl rfl
  · split
    · exact Correlated.sendPacket hk rfl rfl
    · exact Correlated.sendPacket hk rfl rfl
  · exact Correlated.sendPacket hk rfl rfl
  · exact Correlated.sendPacket hk rfl rfl

theorem PacketAuth.process_replies (h : WF env w) (hk : (w.clientAt c).connection = some k)
    (sv : AuthServices) (p : PacketAuth) :
    Correlated k .auth p.sequenceId w (PacketAuth.process env sv w c p) := by
  unfold PacketAuth.process
  cases sv.construct with
  | error _ => exact Correlated.sendPacket hk rfl rfl
  | ok _ =>
    dsimp only
    cases ht : PacketAuth.target w c p with
    | none =>
      dsimp only
      rw [PacketAuth.processLogin_eq]
      generalize (PacketAuth.authenticate env sv _ _ p).run {} = outcome
      cases hu : outcome.2.user with
      | none =>
        simp only [hu, Option.elim_none]
        exact PacketAuth.answer_replies hk sv p _
      | some user =>
        simp only [hu, Option.elim_some]
        have hk' : ((PacketAuth.initUser env w c user).clientAt c).connection = some k := by
          simpa [PacketAuth.initUser] using hk
        exact Correlated.after (Muted.of_eq rfl rfl) (PacketAuth.answer_replies hk' sv p _)
    | some d =>
      dsimp only
      have hreply : Correlated k .auth p.sequenceId w (Client.sendPacket w c (PacketAuth.reply w p d)) :=
        Correlated.sendPacket hk rfl rfl
      have hl : (Client.sendPacket w c (PacketAuth.reply w p d)).membership.Linked := by
        rw [Client.sendPacket_eq]
        exact h.linked
      have hk' : ((Client.sendPacket w c (PacketAuth.reply w p d)).clientAt c).connection = some k := by
        rw [Client.sendPacket_eq]
        exact hk
      have hcd : c ≠ d := by
        unfold PacketAuth.target at ht
        split at ht
        · cases ht
        · have hne := (Option.filter_eq_some_iff.mp ht).2
          exact Ne.symm (by simpa using hne)
      obtain ⟨manager, clamped, closing, he⟩ := Server.reviveClient_normal env hl hcd hk'
      refine hreply.before ?_
      generalize Client.sendPacket w c (PacketAuth.reply w p d) = w₁ at he ⊢
      rw [he]
      refine ⟨(w₁.clientAt c).rooms.elems.flatMap (w₁.farewell c) ++ (w₁.clientAt d).rooms.elems.flatMap _,
        List.append_assoc .., fun x hx => ?_, rfl⟩
      rcases List.mem_append.mp hx with hx | hx
      · obtain ⟨r, -, hx⟩ := List.mem_flatMap.mp hx
        exact World.farewell_mute rfl w₁ c r x hx
      · obtain ⟨r, -, hx⟩ := List.mem_flatMap.mp hx
        exact World.homecoming_mute _ d r x hx

theorem PacketJoin.process_replies (hk : (w.clientAt c).connection = some k) (p : PacketJoin) :
    Correlated k .join p.sequenceId w (PacketJoin.process env w c p) := by
  unfold PacketJoin.process
  split
  · exact Correlated.sendPacket hk rfl rfl
  · split
    · exact Correlated.sendPacket hk rfl rfl
    · rename_i r _
      rcases Client.joinRoom_cases w c r with ⟨id, -, hjoin | ⟨e, he, hjoin⟩⟩ | hjoin
      · rw [hjoin]
        dsimp only
        rw [PacketJoin.welcome_eq]
        dsimp only
        have hk' : ((w.enter c r id).clientAt c).connection = some k := by simpa [World.enter] using hk
        have hmail : ∀ x, (w.enter c r id).mail c x = [(k, x)] := fun x => by
          unfold World.mail
          rw [hk']
          rfl
        have hgreet : Correlated k .join p.sequenceId w ((w.enter c r id).emit
            ((w.enter c r id).welcomeMail c r ⟨w.nextMember⟩ p.sequenceId p.loadHistory)) := by
          refine ⟨_, rfl, fun _ => ⟨.join (PacketJoin.ofMember (w.enter c r id) ⟨w.nextMember⟩ p.sequenceId), ?_, rfl⟩,
            fun q hq ha => ?_⟩
          · simp [World.welcomeMail, hmail]
          · simp only [World.welcomeMail, hmail, List.mem_append, List.mem_singleton, Prod.mk.injEq, true_and,
              Wire.packet.injEq] at hq
            rcases hq with (rfl | rfl) | hq
            · rfl
            · rfl
            · split at hq
              · simp at hq
              · cases hq
        exact hgreet.before ((Muted.autoNick rfl r _ p).trans (Muted.settle rfl _ _))
      · rw [hjoin]
        have hk' : ((w.issue c r id).clientAt c).connection = some k := hk
        have hissue : Muted .join w (w.issue c r id) := Muted.of_eq rfl rfl
        cases e with
        | hung => exact absurd rfl he
        | bannedByIP => exact Correlated.after hissue (Correlated.sendPacket hk' rfl rfl)
        | bannedByID => exact Correlated.after hissue (Correlated.sendPacket hk' rfl rfl)
      · rw [hjoin]
        exact ⟨[], by simp, by simp, by simp⟩

theorem PacketLeave.process_replies (h : WF env w) (hk : (w.clientAt c).connection = some k) (p : PacketTarget) :
    Correlated k .leave p.sequenceId w (PacketLeave.process env w c p) := by
  unfold PacketLeave.process
  split
  · exact Correlated.sendPacket hk rfl rfl
  · rename_i r hroom
    obtain ⟨hr, -⟩ := Client.mem_of_getRoomByName hroom
    obtain ⟨m, hfind⟩ := Room.findMemberByClient_isSome h.linked hr
    rw [Client.leaveRoom_eq hr hfind]
    refine Correlated.after ?_ (Correlated.sendPacket ?_ rfl rfl)
    · exact ⟨w.offlineMail r m, rfl, World.offlineMail_mute rfl w r m, rfl⟩
    · simpa using hk

theorem PacketCreateRoom.process_replies (hk : (w.clientAt c).connection = some k) (p : PacketTarget) :
    Correlated k .createRoom p.sequenceId w (PacketCreateRoom.process w c p) := by
  unfold PacketCreateRoom.process
  split
  · exact Correlated.sendPacket hk rfl rfl
  · split
    · exact Correlated.sendPacket hk rfl rfl
    · cases hroom : Server.getRoomByName w p.target with
      | some r =>
        simp only [Server.createRoom, hroom]
        exact Correlated.sendPacket hk rfl rfl
      | none =>
        simp only [Server.createRoom_eq hroom]
        refine Correlated.after (Muted.of_eq rfl rfl) (Correlated.sendPacket ?_ ?_ ?_)
        · exact hk
        · rfl
        · rfl

theorem PacketRemoveRoom.process_replies (h : WF env w) (hk : (w.clientAt c).connection = some k)
    (p : PacketTarget) : Correlated k .removeRoom p.sequenceId w (PacketRemoveRoom.process env w c p) := by
  unfold PacketRemoveRoom.process
  split
  · exact Correlated.sendPacket hk rfl rfl
  · cases hroom : Server.getRoomByName w p.target with
    | none => exact Correlated.sendPacket hk rfl rfl
    | some r =>
      dsimp only
      split
      · obtain ⟨info, out, hout, he⟩ := Server.removeRoom_eq env h.linked hroom
        have hmuted : Muted .removeRoom w (Server.removeRoom env w p.target) := by
          rw [he]
          exact ⟨out, rfl, fun x hx => (hout x hx).mute rfl (by decide), rfl⟩
        have hk' : ((Server.removeRoom env w p.target).clientAt c).connection = some k := by
          rw [he]
          dsimp only
          split <;> exact hk
        exact Correlated.after hmuted (Correlated.sendPacket hk' rfl rfl)
      · exact Correlated.sendPacket hk rfl rfl

theorem Packet.deserialize_ok {obj : Json} {α : Type} {f : Option UInt32 → Except Json.Error α} {a : α}
    (hs : Packet.deserialize obj = .ok s) (h : (Packet.deserialize obj >>= f) = .ok a) : f s = .ok a := by
  obtain ⟨s', hs', h⟩ := Except.bind_ok h
  rw [hs] at hs'
  cases hs'
  exact h

theorem Packet.read_sequenceId {obj : Json} {p : Packet} (hp : Packet.read env.unset obj = .ok (some p))
    (hs : Packet.deserialize obj = .ok s) (ht : p.type.isRequest) :
    p.sequenceId = if p.type = .onlineList then none else s := by
  unfold Packet.read at hp
  obtain ⟨type, -, hp⟩ := Except.bind_ok hp
  obtain ⟨n, -, hp⟩ := Except.bind_ok hp
  split at hp
  · obtain ⟨_, -, hp⟩ := Except.bind_ok hp
    cases hp
    cases ht
  · obtain ⟨_, -, hp⟩ := Except.bind_ok hp
    cases hp
    cases ht
  · obtain ⟨_, -, hp⟩ := Except.bind_ok hp
    cases hp
    cases ht
  · obtain ⟨q, hq, hp⟩ := Except.bind_ok hp
    cases hp
    unfold PacketOnlineList.deserialize at hq
    obtain ⟨_, -, hq⟩ := Except.bind_ok hq
    obtain ⟨_, -, hq⟩ := Except.bind_ok hq
    cases hq
    rfl
  · obtain ⟨q, hq, hp⟩ := Except.bind_ok hp
    cases hp
    have hq := Packet.deserialize_ok hs hq
    iterate 10 obtain ⟨_, -, hq⟩ := Except.bind_ok hq
    cases hq
    rfl
  · obtain ⟨_, -, hp⟩ := Except.bind_ok hp
    cases hp
    cases ht
  · obtain ⟨q, hq, hp⟩ := Except.bind_ok hp
    cases hp
    have hq := Packet.deserialize_ok hs hq
    iterate 6 obtain ⟨_, -, hq⟩ := Except.bind_ok hq
    cases hq
    rfl
  · obtain ⟨q, hq, hp⟩ := Except.bind_ok hp
    cases hp
    have hq := Packet.deserialize_ok hs hq
    iterate 2 obtain ⟨_, -, hq⟩ := Except.bind_ok hq
    cases hq
    rfl
  · obtain ⟨q, hq, hp⟩ := Except.bind_ok hp
    cases hp
    have hq := Packet.deserialize_ok hs hq
    iterate 2 obtain ⟨_, -, hq⟩ := Except.bind_ok hq
    cases hq
    rfl
  · obtain ⟨q, hq, hp⟩ := Except.bind_ok hp
    cases hp
    have hq := Packet.deserialize_ok hs hq
    iterate 2 obtain ⟨_, -, hq⟩ := Except.bind_ok hq
    cases hq
    rfl
  · obtain ⟨_, -, hp⟩ := Except.bind_ok hp
    cases hp
    cases ht
  · cases hp

theorem Packet.process_replies (h : WF env w) (hk : (w.clientAt c).connection = some k) (sv : AuthServices)
    (p : Packet) (ht : p.type.isRequest) (hp : p.type = .onlineList → p.sequenceId = none) :
    Correlated k p.type p.sequenceId w (p.process env sv w c) := by
  cases p with
  | error | system | message | status | ping => cases ht
  | onlineList p =>
    have hnone : p.sequenceId = none := hp rfl
    change Correlated k .onlineList p.sequenceId w _
    rw [hnone]
    exact PacketOnlineList.process_replies hk p hnone
  | auth p => exact PacketAuth.process_replies h hk sv p
  | join p => exact PacketJoin.process_replies hk p
  | leave p => exact PacketLeave.process_replies h hk p
  | createRoom p => exact PacketCreateRoom.process_replies hk p
  | removeRoom p => exact PacketRemoveRoom.process_replies h hk p

theorem PacketOnlineList.process_drops (hk : (w.clientAt c).connection = some k) (p : PacketOnlineList)
    (hp : p.sequenceId = none) (h : Correlated k .onlineList s w (PacketOnlineList.process w c p)) : s = none := by
  obtain ⟨out, hsent, -, hall⟩ := h
  have hmail : ∀ x, w.mail c x = [(k, x)] := fun x => by
    unfold World.mail
    rw [hk]
    rfl
  have hone : ∀ q : Packet, q.Answers .onlineList → q.sequenceId = none →
      (Client.sendPacket w c q).sent = w.sent ++ out → s = none := by
    intro q hq hnone he
    rw [Client.sendPacket_eq, hmail] at he
    have hout : [(k, Wire.packet q)] = out := List.append_cancel_left he
    exact (hall q (hout ▸ List.mem_singleton_self _) hq).symm.trans hnone
  unfold PacketOnlineList.process at hsent
  split at hsent
  · refine hone _ ?_ ?_ hsent
    · rfl
    · exact hp
  · refine hone _ ?_ ?_ hsent
    · exact Or.inl rfl
    · rfl

end

/-- A request is answered with its sequence id, and without one where it has none, if and only if
it is not a request for an online list that carries one. -/
theorem run_replies_correlated_iff (env : Env) (es : List Event) (sv : AuthServices) (k : ConnectionPtr)
    (c : ClientPtr) (obj : Json) (p : Packet) (s : Option UInt32)
    (hc : findClientByConnection (run env es) k = some c) (hp : Packet.read env.unset obj = .ok (some p))
    (hs : Packet.deserialize obj = .ok s) (ht : p.type.isRequest) :
    let w := run env es
    Correlated k p.type s w (Server.onMessage env sv w k (some obj)) ↔ ¬ (p.type = .onlineList ∧ s.isSome) := by
  intro w
  have hw : WF env w := wf_run env es
  obtain ⟨hcl, hk⟩ := ClientsManager.findClientByConnection_spec hw hc
  set w₁ : World := w.modifyClient c fun cli => { cli with lastPacketTime := w.now } with hw₁
  have hhandler : Server.onMessage env sv w k (some obj) = p.process env sv w₁ c :=
    Server.onMessage_read hc hp sv
  have htouch : Steps env c w Anywhere w w₁ := Deeds.steps (touch_deeds _ _ _ rfl)
  have hk₁ : (w₁.clientAt c).connection = some k := by simpa [hw₁] using hk
  have hseq := Packet.read_sequenceId hp hs ht
  have hreply : Correlated k p.type p.sequenceId w (p.process env sv w₁ c) :=
    Correlated.after (Muted.of_eq rfl rfl) (Packet.process_replies (hw.steps htouch) hk₁ sv p ht
      fun hlist => by rw [hseq, if_pos hlist])
  rw [hhandler]
  constructor
  · rintro hcorr ⟨hlist, hsome⟩
    cases p with
    | onlineList q =>
      have hnone : s = none := PacketOnlineList.process_drops hk₁ q (hseq.trans (if_pos hlist)) hcorr
      rw [hnone] at hsome
      cases hsome
    | _ => cases hlist
  · intro hno
    have hsame : p.sequenceId = s := by
      rw [hseq]
      split
      · rename_i hlist
        cases s with
        | none => rfl
        | some n => exact absurd ⟨hlist, rfl⟩ hno
      · rfl
    rw [hsame] at hreply
    exact hreply

def Sample.numbered (type : Int) : Json :=
  .obj [(utf8 "sequenceId", .uint 5), (utf8 "type", .int type), (utf8 "target", .str (utf8 "#room"))]

theorem run_replies_correlated_iff_leave :
    let w := run Sample.surroundings [Sample.opens 0 1 97 Sample.mem_a]
    Correlated ⟨1⟩ .leave (some 5) w
      (Server.onMessage Sample.surroundings Sample.bob w ⟨1⟩ (some (Sample.numbered 7))) :=
  (run_replies_correlated_iff Sample.surroundings [Sample.opens 0 1 97 Sample.mem_a] Sample.bob ⟨1⟩ ⟨0⟩
    (Sample.numbered 7) (.leave { sequenceId := some 5, target := utf8 "#room" }) (some 5)
    (by decide +kernel) (by rfl) (by rfl) rfl).mpr fun h => by cases h.1

/-- The error about an unknown room goes back without the sequence id. -/
theorem run_replies_correlated_list :
    let w := run Sample.surroundings [Sample.opens 0 1 97 Sample.mem_a]
    findClientByConnection w ⟨1⟩ = some ⟨0⟩ ∧
      Packet.read {} (Sample.numbered 3) = .ok (some (.onlineList { target := utf8 "#room" })) ∧
      Packet.deserialize (Sample.numbered 3) = .ok (some 5) ∧
      ¬ Correlated ⟨1⟩ .onlineList (some 5) w
        (Server.onMessage Sample.surroundings Sample.bob w ⟨1⟩ (some (Sample.numbered 3))) := by
  intro w
  refine ⟨by decide +kernel, by rfl, by rfl, ?_⟩
  rintro ⟨out, hsent, -, hall⟩
  have hout : out = [(⟨1⟩, .packet (.error {
      source := .onlineList, target := utf8 "#room", code := .notFound
      info := utf8 "Вы не подключены к комнате \"#room\"" }))] := by
    have hnone : w.sent = [] := by decide +kernel
    rw [hnone, List.nil_append] at hsent
    rw [← hsent]
    decide +kernel
  have hseq := fun ha => hall _ (hout ▸ List.mem_singleton_self _) ha
  cases hseq rfl

end WsChat
