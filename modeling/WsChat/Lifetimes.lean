import WsChat.Admission
import WsChat.Departures
import WsChat.Flood
import WsChat.Timeouts

/-! How long sessions last: what each event makes of every session, told from the state before it. -/
namespace WsChat
open Lib Relation ClientsManager

def Steady (w w' : World) : Prop := ∃ ms, Evolves w w.registry ms w'

section
variable {env : Env} {w w' w'' : World} {c : ClientPtr} {r : RoomPtr} {S : Bytes → Prop}

theorem Frame.steady (h : Frame w w') : Steady w w' := ⟨w.membership, h⟩

theorem Steady.refl (w : World) : Steady w w := (Frame.refl w).steady

theorem Steady.trans (h : Steady w w') (h' : Steady w' w'') : Steady w w'' := by
  obtain ⟨ms, he⟩ := h
  obtain ⟨ms', he'⟩ := h'
  exact ⟨ms', he'.registry.trans he.registry, he'.membership, he'.nullDeref.trans he.nullDeref,
    he'.hung.trans he.hung, he'.disk.trans he.disk⟩

theorem Steady.registry (h : Steady w w') : w'.registry = w.registry := h.choose_spec.registry

theorem Steady.hung (h : Steady w w') : w'.hung = w.hung := h.choose_spec.hung

theorem Client.sendPacket_steady (w : World) (c : ClientPtr) (p : Packet) : Steady w (Client.sendPacket w c p) := by
  rw [Client.sendPacket_eq]
  exact (Frame.emit w _).steady

theorem Deed.steady {w₀ : World} (h : Deed env c w₀ S w w') : Steady w w' := by
  cases h with
  | quiet hq => exact hq.frame.steady
  | kick r m => exact ⟨_, Room.kickMember_evolves⟩
  | banKick r m nick =>
    have hban : Frame w (w.modifyRoom r fun rm => { rm with bannedNicks := rm.bannedNicks.insert nick }) :=
      Frame.modifyRoom w r _ rfl rfl
    exact hban.steady.trans ⟨_, Room.kickMember_evolves⟩

theorem Deeds.steady {w₀ : World} (h : Deeds env c w₀ S w w') : Steady w w' := by
  induction h with
  | refl => exact .refl w
  | tail _ hd ih => exact ih.trans hd.steady

theorem PacketStatus.process_steady (w : World) (c : ClientPtr) (p : PacketStatus) :
    Steady w (PacketStatus.process env w c p) := by
  have hroom : ∀ (w : World) r, Frame w (PacketStatus.presenceRoom env c p.status w r) := by
    intro w r
    unfold PacketStatus.presenceRoom
    cases Room.findMemberByClient w r c with
    | none => exact Frame.refl w
    | some m =>
      dsimp only
      split
      · rw [Room.sendPacketToAll_status]
        exact (Frame.modifyMember w m _ rfl rfl).trans (Frame.emit _ _)
      · exact Frame.refl w
  unfold PacketStatus.process
  split
  · exact (Frame.foldl _ _ w fun w' _ r _ => hroom w' r).steady
  · split
    · split
      · exact .refl w
      · split
        · exact .refl w
        · split
          · rw [Room.sendPacketToAll_status]
            exact (Frame.emit w _).steady
          · exact .refl w
    · exact .refl w

theorem PacketLeave.process_steady (h : WF env w) (p : PacketTarget) : Steady w (PacketLeave.process env w c p) := by
  unfold PacketLeave.process
  cases hroom : Client.getRoomByName w c p.target with
  | none => exact Client.sendPacket_steady w c _
  | some r =>
    obtain ⟨m, -, -, he⟩ := Client.leaveRoom_evolves env h.linked (Client.mem_of_getRoomByName hroom).1
    have hleft : Steady w (Client.leaveRoom env w c r) := ⟨_, he⟩
    exact hleft.trans (Client.sendPacket_steady _ c _)

theorem PacketCreateRoom.process_steady (p : PacketTarget) : Steady w (PacketCreateRoom.process w c p) := by
  unfold PacketCreateRoom.process
  split
  · exact Client.sendPacket_steady w c _
  · split
    · exact Client.sendPacket_steady w c _
    · cases hroom : Server.getRoomByName w p.target with
      | some r =>
        simp only [Server.createRoom, hroom]
        exact Client.sendPacket_steady w c _
      | none =>
        rw [Server.createRoom_eq hroom]
        have hfound : Steady w (w.found p.target) := ⟨_, found_evolves w p.target⟩
        exact (hfound.trans (Frame.modifyRoom _ _ _ rfl rfl).steady).trans (Client.sendPacket_steady _ c _)

theorem PacketRemoveRoom.process_steady (h : WF env w) (p : PacketTarget) :
    Steady w (PacketRemoveRoom.process env w c p) := by
  unfold PacketRemoveRoom.process
  split
  · exact Client.sendPacket_steady w c _
  · cases hroom : Server.getRoomByName w p.target with
    | none => exact Client.sendPacket_steady w c _
    | some r =>
      dsimp only
      split
      · have hrazed : Steady w (Server.removeRoom env w p.target) := ⟨_, Server.removeRoom_evolves h.linked hroom⟩
        exact hrazed.trans (Client.sendPacket_steady _ c _)
      · exact Client.sendPacket_steady w c _

theorem PacketJoin.process_steady (p : PacketJoin) :
    Steady w (PacketJoin.process env w c p) ∨
      (∃ r ∈ w.rooms, Room.genNextMemberId w r = none) ∧
        PacketJoin.process env w c p = { w with hung := true } := by
  unfold PacketJoin.process
  cases Client.getRoomByName w c p.target with
  | some r => exact .inl (Client.sendPacket_steady w c _)
  | none =>
    cases hroom : Server.getRoomByName w p.target with
    | none => exact .inl (Client.sendPacket_steady w c _)
    | some r =>
      dsimp only
      cases hid : Room.genNextMemberId w r with
      | none =>
        have hjoin : Client.joinRoom w c r = ({ w with hung := true }, .error .hung) := by
          simp [Client.joinRoom, Room.addMember, hid]
        rw [hjoin]
        exact .inr ⟨⟨r, (Server.mem_of_getRoomByName hroom).1, hid⟩, rfl⟩
      | some id =>
        refine .inl ?_
        by_cases ha : Client.Admitted w c r
        · rw [Client.joinRoom_admitted hid ha]
          have hentered : Steady w (w.enter c r id) := ⟨_, enter_evolves w c r id⟩
          exact hentered.trans (PacketJoin.welcome_settled _ c r _ p).frame.steady
        · obtain ⟨e, he, hjoin⟩ := Client.joinRoom_refused hid ha
          have hissued : Steady w (w.issue c r id) := ⟨_, issue_evolves w c r id⟩
          rw [hjoin]
          cases e with
          | hung => exact absurd rfl he
          | bannedByIP => exact hissued.trans (Client.sendPacket_steady _ c _)
          | bannedByID => exact hissued.trans (Client.sendPacket_steady _ c _)

theorem PacketAuth.answer_steady (sv : AuthServices) (p : PacketAuth) (result : Except AuthExit Unit) :
    Steady w (PacketAuth.answer sv p c result w) := by
  unfold PacketAuth.answer
  split
  · exact Client.sendPacket_steady w c _
  · split <;> exact Client.sendPacket_steady w c _
  · exact Client.sendPacket_steady w c _
  · exact Client.sendPacket_steady w c _

theorem PacketAuth.processLogin_steady (sv : AuthServices) (p : PacketAuth) :
    Steady w (PacketAuth.processLogin env sv w c p) := by
  rw [PacketAuth.processLogin_eq]
  dsimp only
  cases ((PacketAuth.authenticate env sv _ _ p).run {}).2.user with
  | none => exact PacketAuth.answer_steady sv p _
  | some user =>
    have hknown : Frame w (PacketAuth.initUser env w c user) := Frame.modifyClient w c _ rfl rfl rfl rfl
    exact hknown.steady.trans (PacketAuth.answer_steady sv p _)

/-- The other client that an auth packet brings back, if the services are there. -/
def PacketAuth.revived (sv : AuthServices) (w : World) (c : ClientPtr) (p : PacketAuth) : Option ClientPtr :=
  match sv.construct with
  | .ok _ => PacketAuth.target w c p
  | .error _ => none

theorem PacketAuth.process_steady {sv : AuthServices} {p : PacketAuth} (h : PacketAuth.revived sv w c p = none) :
    Steady w (PacketAuth.process env sv w c p) := by
  unfold PacketAuth.revived at h
  unfold PacketAuth.process
  cases hsv : sv.construct with
  | error _ => exact Client.sendPacket_steady w c _
  | ok _ =>
    rw [hsv] at h
    dsimp only at h ⊢
    rw [h]
    exact PacketAuth.processLogin_steady sv p

theorem PacketAuth.revived_spec {sv : AuthServices} {p : PacketAuth} {t : ClientPtr} (h : w.registry.Indexed env)
    (ht : PacketAuth.revived sv w c p = some t) : t ∈ w.manager.clients ∧ c ≠ t := by
  unfold PacketAuth.revived at ht
  cases hsv : sv.construct with
  | error _ => simp [hsv] at ht
  | ok _ =>
    rw [hsv] at ht
    dsimp only at ht
    unfold PacketAuth.target at ht
    split at ht
    · cases ht
    · obtain ⟨hlook, hne⟩ := Option.filter_eq_some_iff.mp ht
      exact ⟨((h.tokenIff p.token t).mp hlook).1, Ne.symm (by simpa using hne)⟩

theorem PacketAuth.process_revives {sv : AuthServices} {p : PacketAuth} {t : ClientPtr} {k : ConnectionPtr}
    (h : WF env w) (hc : c ∈ w.manager.clients) (hk : (w.clientAt c).connection = some k)
    (ht : PacketAuth.revived sv w c p = some t) :
    ∃ ms, Evolves w ((w.registry.unlink t).adopt env c t k) ms (PacketAuth.process env sv w c p) := by
  obtain ⟨htc, hct⟩ := PacketAuth.revived_spec h.indexed ht
  have htold := Frame.emit w (w.mail c (.packet (PacketAuth.reply w p t)))
  unfold PacketAuth.revived at ht
  unfold PacketAuth.process
  cases hsv : sv.construct with
  | error _ => simp [hsv] at ht
  | ok _ =>
    rw [hsv] at ht
    dsimp only at ht ⊢
    rw [ht]
    dsimp only
    rw [Client.sendPacket_eq]
    have hrevived := ClientsManager.reviveClient_evolves (h.frame htold).indexed (h.frame htold).linked hc htc hct hk
    exact ⟨_, (hrevived.then_frame (Server.reviveClient_frame _ c t)).after_frame htold⟩

end

/-- What becomes of a session: it ends, or goes on with a connection or without. -/
inductive Fate where
  | ends
  | goesOn (connection : Option ConnectionPtr)
  deriving DecidableEq

namespace Registry

/-- From one registry to the next every session meets its fate, and `new` are the sessions that begin. -/
structure Passage (env : Env) (g : Registry) (fate : ClientPtr → Fate) (new : List ClientPtr) (g' : Registry) :
    Prop where
  clients : g'.clients = (g.clients.filter fun d => fate d ≠ .ends) ++ new
  connection : ∀ d ∈ g.clients, ∀ k, fate d = .goesOn k → g'.connection d = k
  token : ∀ d ∈ g.clients, fate d ≠ .ends → g'.token d = g.token d
  address : ∀ d ∈ g.clients, ∀ k, fate d = .goesOn (some k) → g'.lastClientIP d = env.realIp k
  lastAddress : ∀ d ∈ g.clients, fate d = .goesOn none → g'.lastClientIP d = g.lastClientIP d

def stays (g : Registry) (d : ClientPtr) : Fate := .goesOn (g.connection d)

variable {env : Env} {g g' : Registry} {c t : ClientPtr} {k : ConnectionPtr} {fate fate' : ClientPtr → Fate}
  {new : List ClientPtr}

theorem Passage.congr (h : Passage env g fate new g') (hfate : ∀ d ∈ g.clients, fate d = fate' d) :
    Passage env g fate' new g' where
  clients := by
    rw [h.clients]
    exact congrArg (· ++ new) (List.filter_congr fun d hd => by rw [hfate d hd])
  connection := fun d hd k hk => h.connection d hd k ((hfate d hd).trans hk)
  token := fun d hd hk => h.token d hd fun he => hk ((hfate d hd).symm.trans he)
  address := fun d hd k hk => h.address d hd k ((hfate d hd).trans hk)
  lastAddress := fun d hd hk => h.lastAddress d hd ((hfate d hd).trans hk)

theorem Passage.stay (hi : g.Indexed env) (hclients : g'.clients = g.clients) (hconn : g'.connection = g.connection)
    (htok : g'.token = g.token) (hip : g'.lastClientIP = g.lastClientIP) : Passage env g g.stays [] g' where
  clients := by simp [hclients, stays]
  connection := fun d _ k hk => by rw [hconn]; exact Fate.goesOn.inj hk
  token := fun d _ _ => by rw [htok]
  address := fun d hd k hk => by rw [hip]; exact hi.address d hd k (Fate.goesOn.inj hk)
  lastAddress := fun d _ _ => by rw [hip]

theorem Passage.unlink (hi : g.Indexed env) (c : ClientPtr) :
    Passage env g (fun d => if d = c then .goesOn none else g.stays d) [] (g.unlink c) where
  clients := by
    rw [Registry.unlink_clients, List.append_nil]
    refine (List.filter_eq_self.mpr fun d _ => ?_).symm
    by_cases hd : d = c <;> simp [hd, stays]
  connection := fun d _ k hk => by
    rw [Registry.unlink_connection]
    by_cases hd : d = c
    · subst hd
      simpa using hk
    · rw [Function.update_of_ne hd]
      simpa [hd, stays] using hk
  token := fun d _ _ => by rw [Registry.unlink_token]
  address := fun d hd k hk => by
    rw [Registry.unlink_lastClientIP]
    by_cases hdc : d = c
    · simp [hdc] at hk
    · exact hi.address d hd k (by simpa [hdc, stays] using hk)
  lastAddress := fun d _ _ => by rw [Registry.unlink_lastClientIP]

theorem Passage.drop (hi : g.Indexed env) (c : ClientPtr) :
    Passage env g (fun d => if d = c then .ends else g.stays d) [] ((g.unlink c).forget c) where
  clients := by
    have hleft : ((g.unlink c).forget c).clients = g.clients.erase c :=
      congrArg (List.erase · c) (Registry.unlink_clients g c)
    rw [hleft, hi.nodup.erase_eq_filter, List.append_nil]
    refine List.filter_congr fun d _ => ?_
    by_cases hd : d = c <;> simp [hd, stays]
  connection := fun d _ k hk => by
    have hleft : ((g.unlink c).forget c).connection = Function.update g.connection c none :=
      Registry.unlink_connection g c
    by_cases hd : d = c
    · simp [hd] at hk
    · rw [hleft, Function.update_of_ne hd]
      simpa [hd, stays] using hk
  token := fun d _ _ => congrFun (Registry.unlink_token g c) d
  address := fun d hd k hk => by
    have hleft : ((g.unlink c).forget c).lastClientIP = g.lastClientIP := Registry.unlink_lastClientIP g c
    by_cases hdc : d = c
    · simp [hdc] at hk
    · rw [hleft]
      exact hi.address d hd k (by simpa [hdc, stays] using hk)
  lastAddress := fun d _ _ => congrFun (Registry.unlink_lastClientIP g c) d

theorem Passage.adopt (hi : g.Indexed env) (hct : c ≠ t) :
    Passage env g (fun d => if d = c then .ends else if d = t then .goesOn (some k) else g.stays d) []
      ((g.unlink t).adopt env c t k) where
  clients := by
    have hleft : ((g.unlink t).adopt env c t k).clients = g.clients.erase c :=
      congrArg (List.erase · c) (Registry.unlink_clients g t)
    rw [hleft, hi.nodup.erase_eq_filter, List.append_nil]
    refine List.filter_congr fun d _ => ?_
    by_cases hd : d = c
    · simp [hd]
    · by_cases hdt : d = t
      · subst hdt
        simp [Ne.symm hct]
      · simp [hd, hdt, stays]
  connection := fun d _ k' hk => by
    have hleft : ((g.unlink t).adopt env c t k).connection =
        Function.update (Function.update (Function.update g.connection t none) c none) t (some k) := by
      rw [← Registry.unlink_connection g t]
      rfl
    rw [hleft]
    by_cases hd : d = c
    · simp [hd] at hk
    · by_cases hdt : d = t
      · subst hdt
        simpa [hd] using hk
      · simpa [hd, hdt, stays] using hk
  token := fun d _ _ => congrFun (Registry.unlink_token g t) d
  address := fun d hd k' hk => by
    have hleft : ((g.unlink t).adopt env c t k).lastClientIP = Function.update g.lastClientIP t (env.realIp k) := by
      rw [← Registry.unlink_lastClientIP g t]
      rfl
    rw [hleft]
    by_cases hdc : d = c
    · simp [hdc] at hk
    · by_cases hdt : d = t
      · subst hdt
        have hkk : k = k' := by simpa [hdc] using hk
        rw [Function.update_self, hkk]
      · rw [Function.update_of_ne hdt]
        exact hi.address d hd k' (by simpa [hdc, hdt, stays] using hk)
  lastAddress := fun d hd hk => by
    have hleft : ((g.unlink t).adopt env c t k).lastClientIP = Function.update g.lastClientIP t (env.realIp k) := by
      rw [← Registry.unlink_lastClientIP g t]
      rfl
    by_cases hdt : d = t
    · subst hdt
      simp [Ne.symm hct] at hk
    · rw [hleft, Function.update_of_ne hdt]

theorem Passage.register (h : Passage env g fate [] g') (hfresh : ∀ d ∈ g.clients, d.addr < g'.nextClient)
    (token : Bytes) : Passage env g fate [⟨g'.nextClient⟩] (g'.register env k token) := by
  have hold : ∀ d ∈ g.clients, d ≠ (⟨g'.nextClient⟩ : ClientPtr) := by
    intro d hd he
    subst he
    exact absurd (hfresh _ hd) (Nat.lt_irrefl _)
  refine ⟨?_, ?_, ?_, ?_, ?_⟩
  · have hgrown : (g'.register env k token).clients = g'.clients ++ [⟨g'.nextClient⟩] := rfl
    rw [hgrown, h.clients, List.append_nil]
  · intro d hd k' hk
    exact (Function.update_of_ne (hold d hd) _ _).trans (h.connection d hd k' hk)
  · intro d hd hk
    exact (Function.update_of_ne (hold d hd) _ _).trans (h.token d hd hk)
  · intro d hd k' hk
    exact (Function.update_of_ne (hold d hd) _ _).trans (h.address d hd k' hk)
  · intro d hd hk
    exact (Function.update_of_ne (hold d hd) _ _).trans (h.lastAddress d hd hk)

end Registry

section
variable {env : Env} {w : World} {c d : ClientPtr} {k : ConnectionPtr} {draws : List Token}

theorem ClientsManager.connect_draws (env : Env) (w : World) (k : ConnectionPtr) (draws : List Token) :
    (∃ t ∈ draws, w.manager.tokenToClient.lookup t.1 = none ∧
      Evolves w (w.registry.register env k t.1) (w.membership.enroll ⟨w.nextClient⟩) (connect env w k draws)) ∨
    (∀ t ∈ draws, w.manager.tokenToClient.lookup t.1 ≠ none) ∧ connect env w k draws = { w with hung := true } := by
  cases hd : draws.find? fun t => !(w.manager.tokenToClient.lookup t.1).isSome with
  | none =>
    refine .inr ⟨fun t ht => by simpa using List.find?_eq_none.mp hd t ht, ?_⟩
    unfold connect
    rw [hd]
  | some t =>
    have hgrown : (connect env w k draws).nextClient = w.nextClient + 1 := by
      unfold connect
      rw [hd]
      rfl
    have hdrawn : ((connect env w k draws).clientAt ⟨w.nextClient⟩).token = t.1 := by
      unfold connect
      rw [hd]
      simp [Client.setConnection]
    rcases ClientsManager.connect_evolves env w k draws with ⟨token, -, hfree, he⟩ | he
    · have htoken : (connect env w k draws).registry.token ⟨w.nextClient⟩ = token := by
        rw [he.registry]
        exact Function.update_self ..
      have heq : token = t.1 := htoken.symm.trans hdrawn
      subst heq
      exact .inl ⟨t, List.mem_of_find?_eq_some hd, hfree, he⟩
    · rw [he] at hgrown
      exact absurd hgrown (Nat.ne_of_lt (Nat.lt_succ_self _))

/-- The orphan that makes room for a new connection. -/
def World.evicted (env : Env) (w : World) (k : ConnectionPtr) : Option ClientPtr :=
  let counter := counterAt w (env.realIp k)
  if k ∉ w.opened ∧ counter.connections < Server.maxConnectionsFromIp ∧
      Server.maxClientsFromIp ≤ counter.clients then
    findFirstClient w (Server.isOrphanOf w (env.realIp k))
  else none

def World.exchange (env : Env) (w : World) (k : ConnectionPtr) (msg : Option Json) (sv : AuthServices) :
    Option (ClientPtr × ClientPtr) :=
  match findClientByConnection w k, (Act.message k msg sv).packet env with
  | some c, some (.auth p) => (PacketAuth.revived sv w c p).map fun t => (c, t)
  | _, _ => none

/-- What an event makes of a session while the server runs. -/
def World.fate (env : Env) (w : World) (d : ClientPtr) : Act → Fate
  | .connected k _ => if w.evicted env k = some d then .ends else w.registry.stays d
  | .message k msg sv =>
    match w.exchange env k msg sv with
    | some (c, t) => if d = c then .ends else if d = t then .goesOn (some k) else w.registry.stays d
    | none => w.registry.stays d
  | .closed k status =>
    if (w.clientAt d).connection = some k then
      if status = 1000 ∨ status = 1001 then .ends else .goesOn none
    else w.registry.stays d
  | .failed k => if (w.clientAt d).connection = some k then .goesOn none else w.registry.stays d
  | .tick =>
    if Server.orphanTimeout < w.idle d then .ends
    else if Server.connectTimeout < w.idle d then .goesOn none
    else w.registry.stays d
  | .save => w.registry.stays d
  | .restart => .ends

/-- A session that begins, on a new connection of an address that has room for it, with a token that was drawn. -/
structure World.Begins (env : Env) (w : World) (act : Act) (w' : World) (d : ClientPtr) : Prop where
  new : d ∉ w.manager.clients
  opens : ∃ k draws, act = .connected k draws ∧ k ∉ w.opened ∧
    (counterAt w (env.realIp k)).connections < Server.maxConnectionsFromIp ∧
    (w'.clientAt d).connection = some k ∧ (w'.clientAt d).lastClientIP = env.realIp k ∧
    ∃ t ∈ draws, (w'.clientAt d).token = t.1

theorem Server.onOpen_evicted (env : Env) (w : World) {k : ConnectionPtr} (hk : k ∉ w.opened) (draws : List Token) :
    Server.onOpen env { w with opened := k :: w.opened } k draws =
      if Server.maxConnectionsFromIp ≤ (counterAt w (env.realIp k)).connections
      then Server.closeConnection (w.arrival env k) k
      else connect env ((w.evicted env k).elim (w.arrival env k) (remove env (w.arrival env k))) k draws := by
  have hevict : ¬ Server.maxConnectionsFromIp ≤ (counterAt w (env.realIp k)).connections →
      Server.evictOrphan env (w.arrival env k) (env.realIp k) (counterAt w (env.realIp k)) =
        (w.evicted env k).elim (w.arrival env k) (remove env (w.arrival env k)) := by
    intro hroom
    have hfind : findFirstClient (w.arrival env k) (Server.isOrphanOf (w.arrival env k) (env.realIp k)) =
      findFirstClient w (Server.isOrphanOf w (env.realIp k)) := rfl
    unfold Server.evictOrphan World.evicted
    dsimp only
    rw [hfind]
    by_cases hclients : Server.maxClientsFromIp ≤ (counterAt w (env.realIp k)).clients
    · rw [if_pos hclients, if_pos ⟨hk, not_le.mp hroom, hclients⟩]
      cases findFirstClient w (Server.isOrphanOf w (env.realIp k)) with
      | none => rfl
      | some c => rfl
    · rw [if_neg hclients, if_neg fun hfull => hclients hfull.2.2]
      rfl
  have hopen : Server.onOpen env { w with opened := k :: w.opened } k draws =
      if Server.maxConnectionsFromIp ≤ (counterAt w (env.realIp k)).connections
      then Server.closeConnection (w.arrival env k) k
      else connect env (Server.evictOrphan env (w.arrival env k) (env.realIp k) (counterAt w (env.realIp k))) k
        draws := rfl
  rw [hopen]
  by_cases hfull : Server.maxConnectionsFromIp ≤ (counterAt w (env.realIp k)).connections
  · rw [if_pos hfull, if_pos hfull]
  · rw [if_neg hfull, if_neg hfull, hevict hfull]

theorem World.evicted_spec (h : w.evicted env k = some d) :
    d ∈ w.manager.clients ∧ (w.clientAt d).connection = none := by
  unfold World.evicted at h
  dsimp only at h
  split at h
  · exact ⟨List.mem_of_find?_eq_some h, (Server.isOrphanOf_iff.mp (List.find?_some h)).1⟩
  · cases h

theorem World.arrival_passage (h : WF env w) (k : ConnectionPtr) :
    let w₁ := (w.evicted env k).elim (w.arrival env k) (remove env (w.arrival env k))
    w.registry.Passage env (fun d => if w.evicted env k = some d then .ends else w.registry.stays d) [] w₁.registry ∧
      w₁.registry.Indexed env ∧ w₁.hung = w.hung ∧ w₁.nextClient = w.nextClient := by
  intro w₁
  have hi : (w.arrival env k).registry.Indexed env := World.arrival_indexed h
  cases he : w.evicted env k with
  | none =>
    have hw₁ : w₁ = w.arrival env k := by simp [w₁, he]
    rw [hw₁]
    have hstay : w.registry.Passage env w.registry.stays [] (w.arrival env k).registry :=
      .stay h.indexed rfl rfl rfl rfl
    exact ⟨hstay.congr fun d _ => by simp, hi, rfl, rfl⟩
  | some c =>
    obtain ⟨hc, hk⟩ := World.evicted_spec he
    have hw₁ : w₁ = remove env (w.arrival env k) c := by simp [w₁, he]
    have hev := ClientsManager.remove_evolves hi (show (w.arrival env k).membership.Linked from h.linked) hc
    have hdrop := Registry.Passage.drop hi c
    rw [← hev.registry, ← hw₁] at hdrop
    have hgone : w.registry.Passage env (fun d => if d = c then .ends else w.registry.stays d) [] w₁.registry :=
      ⟨hdrop.clients, hdrop.connection, hdrop.token, hdrop.address, hdrop.lastAddress⟩
    have hc' : c ∈ ((w.arrival env k).registry.unlink c).clients := (Registry.unlink_clients _ c).symm ▸ hc
    have hleft := (hi.unlink hc).forget hc' (Registry.unlink_connection_self _ c)
    rw [← hev.registry, ← hw₁] at hleft
    refine ⟨hgone.congr fun d _ => ?_, hleft, hw₁ ▸ hev.hung, ?_⟩
    · simp [eq_comm]
    · have hnext : w₁.registry.nextClient = ((w.arrival env k).registry.unlink c).nextClient := by
        rw [hw₁, hev.registry]
        rfl
      exact hnext.trans (Registry.unlink_nextClient _ c)

def World.Passes (env : Env) (w : World) (act : Act) (w' : World) : Prop :=
  ∃ new, w.registry.Passage env (fun d => w.fate env d act) new w'.registry ∧ new.length ≤ 1 ∧
    ∀ d ∈ new, w.Begins env act w' d

theorem World.Passes.of_stay {act : Act} {w' : World} (h : WF env w) (hreg : w'.registry = w.registry)
    (hfate : ∀ d ∈ w.manager.clients, w.fate env d act = w.registry.stays d) : w.Passes env act w' := by
  have hstay : w.registry.Passage env w.registry.stays [] w'.registry := by
    rw [hreg]
    exact .stay h.indexed rfl rfl rfl rfl
  exact ⟨[], hstay.congr fun d hd => (hfate d hd).symm, Nat.zero_le _, fun d hd => absurd hd List.not_mem_nil⟩

theorem Server.onOpen_passes (h : WF env w) (hk : k ∉ w.opened) (draws : List Token) :
    w.Passes env (.connected k draws) (Server.onOpen env { w with opened := k :: w.opened } k draws) := by
  rw [Server.onOpen_evicted env w hk]
  split
  · rename_i hfull
    have hnone : w.evicted env k = none := if_neg fun hroom => absurd hroom.2.1 (not_lt.mpr hfull)
    have hstay : w.registry.Passage env w.registry.stays [] (Server.closeConnection (w.arrival env k) k).registry :=
      .stay h.indexed rfl rfl rfl rfl
    refine ⟨[], hstay.congr fun d _ => ?_, Nat.zero_le _, fun d hd => absurd hd List.not_mem_nil⟩
    simp [World.fate, hnone]
  · rename_i hroom
    obtain ⟨hpass, -, -, hnext⟩ := World.arrival_passage h k
    generalize (w.evicted env k).elim (w.arrival env k) (remove env (w.arrival env k)) = w₁ at hpass hnext ⊢
    rcases ClientsManager.connect_draws env w₁ k draws with ⟨t, ht, -, he⟩ | ⟨-, he⟩
    · have hfresh : ∀ d ∈ w.registry.clients, d.addr < w₁.registry.nextClient := by
        intro d hd
        rw [show w₁.registry.nextClient = w.nextClient from hnext]
        exact h.indexed.fresh d hd
      have hgrown := Registry.Passage.register (k := k) hpass hfresh t.1
      rw [← he.registry] at hgrown
      refine ⟨_, hgrown, le_refl _, fun d hd => ?_⟩
      rw [List.mem_singleton] at hd
      subst hd
      refine ⟨fun hold => Nat.lt_irrefl _ (hfresh _ hold), k, draws, rfl, hk, not_le.mp hroom, ?_, ?_, t, ht, ?_⟩
      · have hconn := congrArg (fun g => Registry.connection g ⟨w₁.nextClient⟩) he.registry
        exact hconn.trans (Function.update_self ..)
      · have hip := congrArg (fun g => Registry.lastClientIP g ⟨w₁.nextClient⟩) he.registry
        exact hip.trans (Function.update_self ..)
      · have htoken := congrArg (fun g => Registry.token g ⟨w₁.nextClient⟩) he.registry
        exact htoken.trans (Function.update_self ..)
    · rw [he]
      exact ⟨[], hpass, Nat.zero_le _, fun d hd => absurd hd List.not_mem_nil⟩

theorem Packet.process_outcome (h : WF env w) (hc : c ∈ w.manager.clients) (hk : (w.clientAt c).connection = some k)
    (sv : AuthServices) (p : Packet) :
    ((∀ q, p = .auth q → PacketAuth.revived sv w c q = none) ∧ Steady w (p.process env sv w c)) ∨
    ((∃ q, p = .join q) ∧ (∃ r ∈ w.rooms, Room.genNextMemberId w r = none) ∧
      p.process env sv w c = { w with hung := true }) ∨
    ∃ q t, p = .auth q ∧ PacketAuth.revived sv w c q = some t ∧
      ∃ ms, Evolves w ((w.registry.unlink t).adopt env c t k) ms (p.process env sv w c) := by
  have hsteady : Steady w (p.process env sv w c) → (∀ q, p ≠ .auth q) →
      (∀ q, p = .auth q → PacketAuth.revived sv w c q = none) ∧ Steady w (p.process env sv w c) :=
    fun hs hp => ⟨fun q hq => absurd hq (hp q), hs⟩
  cases p with
  | error | system | ping => exact .inl (hsteady (.refl w) nofun)
  | message p =>
    exact .inl (hsteady (Deeds.steady (PacketMessage.process_deeds (S := Anywhere) h (Calm.refl w) p trivial)) nofun)
  | onlineList p =>
    refine .inl (hsteady ?_ nofun)
    change Steady w (PacketOnlineList.process w c p)
    unfold PacketOnlineList.process
    split
    · exact Client.sendPacket_steady w c _
    · exact Client.sendPacket_steady w c _
  | auth p =>
    cases ht : PacketAuth.revived sv w c p with
    | none =>
      refine .inl ⟨fun q hq => ?_, PacketAuth.process_steady ht⟩
      cases hq
      exact ht
    | some t => exact .inr (.inr ⟨p, t, rfl, ht, PacketAuth.process_revives h hc hk ht⟩)
  | status p => exact .inl (hsteady (PacketStatus.process_steady w c p) nofun)
  | join p =>
    have hjoin : Steady w (PacketJoin.process env w c p) ∨ (∃ r ∈ w.rooms, Room.genNextMemberId w r = none) ∧
        PacketJoin.process env w c p = { w with hung := true } := PacketJoin.process_steady p
    cases hjoin with
    | inl hs => exact .inl (hsteady hs nofun)
    | inr hfull => exact .inr (.inl ⟨⟨p, rfl⟩, hfull.1, hfull.2⟩)
  | leave p => exact .inl (hsteady (PacketLeave.process_steady h p) nofun)
  | createRoom p => exact .inl (hsteady (PacketCreateRoom.process_steady p) nofun)
  | removeRoom p => exact .inl (hsteady (PacketRemoveRoom.process_steady h p) nofun)

theorem Server.onMessage_passes (h : WF env w) (k : ConnectionPtr) (msg : Option Json) (sv : AuthServices) :
    w.Passes env (.message k msg sv) (Server.onMessage env sv w k msg) := by
  cases hfind : findClientByConnection w k with
  | none =>
    have hdrop : Server.onMessage env sv w k msg = w := by rw [Server.onMessage, hfind]
    rw [hdrop]
    refine .of_stay h rfl fun d _ => ?_
    simp [World.fate, World.exchange, hfind]
  | some c =>
    obtain ⟨hc, hk⟩ := ClientsManager.findClientByConnection_spec h hfind
    rw [Server.onMessage_packet hfind]
    cases hp : (Act.message k msg sv).packet env with
    | none =>
      refine .of_stay h rfl fun d _ => ?_
      simp [World.fate, World.exchange, hfind, hp]
    | some p =>
      have htouch := w.touch_frame c
      have hk' : ((w.modifyClient c fun cli => { cli with lastPacketTime := w.now }).clientAt c).connection = some k := by
        simpa using hk
      have hrevived : ∀ q, PacketAuth.revived sv (w.modifyClient c fun cli => { cli with lastPacketTime := w.now }) c q =
        PacketAuth.revived sv w c q := fun _ => rfl
      rw [Option.elim_some]
      rcases Packet.process_outcome (h.frame htouch) hc hk' sv p with ⟨hnot, hs⟩ | ⟨⟨q, hq⟩, -, hhung⟩ | ⟨q, t, hq, ht, ms, he⟩
      · refine .of_stay h (hs.registry.trans htouch.registry) fun d _ => ?_
        have hnone : w.exchange env k msg sv = none := by
          unfold World.exchange
          rw [hfind, hp]
          cases p with
          | auth q =>
            dsimp only
            rw [← hrevived q, hnot q rfl]
            rfl
          | _ => rfl
        simp [World.fate, hnone]
      · rw [hhung]
        refine .of_stay h htouch.registry fun d _ => ?_
        simp [World.fate, World.exchange, hfind, hp, hq]
      · rw [hrevived] at ht
        obtain ⟨-, hct⟩ := PacketAuth.revived_spec h.indexed ht
        have hreg := he.registry
        rw [htouch.registry] at hreg
        have hpass := Registry.Passage.adopt (k := k) h.indexed hct
        rw [← hreg] at hpass
        refine ⟨[], hpass.congr fun d _ => ?_, Nat.zero_le _, fun d hd => absurd hd List.not_mem_nil⟩
        simp [World.fate, World.exchange, hfind, hp, hq, ht]

theorem World.connection_iff (h : WF env w) (hfind : findClientByConnection w k = some c) (hd : d ∈ w.manager.clients) :
    (w.clientAt d).connection = some k ↔ d = c := by
  obtain ⟨hc, hk⟩ := ClientsManager.findClientByConnection_spec h hfind
  constructor
  · exact fun hdk => h.indexed.conn_inj hd hc hdk hk
  · intro he
    rw [he]
    exact hk

theorem ClientsManager.removeByConnection_passes (h : WF env w) (k : ConnectionPtr) :
    ∃ fate, w.registry.Passage env fate [] (removeByConnection env w k).registry ∧
      ∀ d ∈ w.manager.clients, fate d = if (w.clientAt d).connection = some k then .ends else w.registry.stays d := by
  unfold removeByConnection
  cases hfind : findClientByConnection w k with
  | none =>
    refine ⟨w.registry.stays, .stay h.indexed rfl rfl rfl rfl, fun d hd => ?_⟩
    rw [if_neg (World.not_connection h hfind hd)]
  | some c =>
    have hc := (ClientsManager.findClientByConnection_spec h hfind).1
    have hpass := Registry.Passage.drop h.indexed c
    rw [← (ClientsManager.remove_evolves h.indexed h.linked hc).registry] at hpass
    refine ⟨_, hpass, fun d hd => ?_⟩
    simp only [World.connection_iff h hfind hd]

theorem ClientsManager.makeOrphanByConnection_passes (h : WF env w) (k : ConnectionPtr) :
    ∃ fate, w.registry.Passage env fate [] (makeOrphanByConnection env w k).registry ∧
      ∀ d ∈ w.manager.clients,
        fate d = if (w.clientAt d).connection = some k then .goesOn none else w.registry.stays d := by
  unfold makeOrphanByConnection
  cases hfind : findClientByConnection w k with
  | none =>
    refine ⟨w.registry.stays, .stay h.indexed rfl rfl rfl rfl, fun d hd => ?_⟩
    rw [if_neg (World.not_connection h hfind hd)]
  | some c =>
    have hc := (ClientsManager.findClientByConnection_spec h hfind).1
    have hpass := Registry.Passage.unlink h.indexed c
    rw [← (ClientsManager.makeOrphan_evolves h.indexed h.linked hc).registry] at hpass
    refine ⟨_, hpass, fun d hd => ?_⟩
    simp only [World.connection_iff h hfind hd]

theorem Server.onClose_passes (h : WF env w) (k : ConnectionPtr) (status : Int) :
    w.Passes env (.closed k status) (Server.onClose env w k status) := by
  unfold Server.onClose
  by_cases hs : status = 1000 ∨ status = 1001
  · obtain ⟨fate, hpass, hfate⟩ := ClientsManager.removeByConnection_passes h k
    rw [if_pos hs]
    refine ⟨[], hpass.congr fun d hd => ?_, Nat.zero_le _, fun d hd => absurd hd List.not_mem_nil⟩
    rw [hfate d hd, World.fate, if_pos hs]
  · obtain ⟨fate, hpass, hfate⟩ := ClientsManager.makeOrphanByConnection_passes h k
    rw [if_neg hs]
    refine ⟨[], hpass.congr fun d hd => ?_, Nat.zero_le _, fun d hd => absurd hd List.not_mem_nil⟩
    rw [hfate d hd, World.fate, if_neg hs]

theorem Server.onError_passes (h : WF env w) (k : ConnectionPtr) :
    w.Passes env (.failed k) (Server.onError env w k) := by
  obtain ⟨fate, hpass, hfate⟩ := ClientsManager.makeOrphanByConnection_passes h k
  exact ⟨[], hpass.congr hfate, Nat.zero_le _, fun d hd => absurd hd List.not_mem_nil⟩

theorem World.fate_tick (env : Env) (w : World) (d : ClientPtr) :
    w.fate env d .tick = if w.Outdated d then .ends
      else if Server.connectTimeout < w.idle d then .goesOn none else w.registry.stays d := rfl

theorem Server.onTimer_passes (h : WF env w) : w.Passes env .tick (Server.onTimer env w) := by
  obtain ⟨-, hclients, hserved, -⟩ := Server.onTimer_tick h
  have hfate : ∀ d ∈ w.manager.clients, ∀ k, w.fate env d .tick = .goesOn k →
      ((Server.onTimer env w).clientAt d).connection = k ∧
        ((Server.onTimer env w).clientAt d).token = (w.clientAt d).token ∧
        ((Server.onTimer env w).clientAt d).lastClientIP = (w.clientAt d).lastClientIP := by
    intro d hd k hk
    have hs := hserved d hd
    rw [World.fate_tick] at hk
    split at hk
    · cases hk
    · rename_i hin
      rw [if_neg hin] at hs
      unfold World.Served at hs
      split at hk
      · rename_i hlate
        have hnone : none = k := Fate.goesOn.inj hk
        cases hconn : (w.clientAt d).connection with
        | none =>
          rw [hconn, if_neg (by simp)] at hs
          rw [hs.client, hconn]
          exact ⟨hnone, rfl, rfl⟩
        | some k' =>
          rw [hconn, if_pos ⟨⟨hlate, not_lt.mp hin⟩, rfl⟩] at hs
          rw [hs.client]
          exact ⟨hnone, rfl, rfl⟩
      · rename_i hearly
        rw [if_neg fun hlapsed => hearly hlapsed.1.1] at hs
        rw [hs.client]
        exact ⟨Fate.goesOn.inj hk, rfl, rfl⟩
  have hgoes : ∀ d, w.fate env d .tick ≠ .ends → ∃ k, w.fate env d .tick = .goesOn k := by
    intro d hd
    cases hk : w.fate env d .tick with
    | ends => exact absurd hk hd
    | goesOn k => exact ⟨k, rfl⟩
  refine ⟨[], ⟨?_, ?_, ?_, ?_, ?_⟩, Nat.zero_le _, fun d hd => absurd hd List.not_mem_nil⟩
  · rw [List.append_nil]
    refine hclients.trans (List.filter_congr fun d _ => ?_)
    by_cases hout : w.Outdated d
    · have hends : w.fate env d .tick = .ends := if_pos hout
      simp [hout, hends]
    · have hends : w.fate env d .tick ≠ .ends := by
        rw [World.fate_tick, if_neg hout]
        split
        · exact nofun
        · exact nofun
      simp [hout, hends]
  · exact fun d hd k hk => (hfate d hd k hk).1
  · intro d hd hne
    obtain ⟨k, hk⟩ := hgoes d hne
    exact (hfate d hd k hk).2.1
  · intro d hd k hk
    have hsame := (hfate d hd (some k) hk).2.2
    refine hsame.trans (h.indexed.address d hd k ?_)
    rw [World.fate_tick] at hk
    split at hk
    · cases hk
    · split at hk
      · cases hk
      · exact Fate.goesOn.inj hk
  · exact fun d hd hk => (hfate d hd none hk).2.2

theorem World.handle_passes (h : WF env w) (act : Act) : w.Passes env act (w.handle env act) := by
  cases act with
  | connected k draws =>
    by_cases hk : k ∈ w.opened
    · have hdrop : w.handle env (.connected k draws) = w := if_pos hk
      have hnone : w.evicted env k = none := if_neg fun hroom => hroom.1 hk
      rw [hdrop]
      exact .of_stay h rfl fun d _ => by simp [World.fate, hnone]
    · rw [show w.handle env (.connected k draws) = _ from if_neg hk]
      exact Server.onOpen_passes h hk draws
  | message k msg sv => exact Server.onMessage_passes h k msg sv
  | closed k status => exact Server.onClose_passes h k status
  | failed k => exact Server.onError_passes h k
  | tick => exact Server.onTimer_passes h
  | save => exact .of_stay h rfl fun d _ => rfl
  | restart =>
    obtain ⟨ms, -, he⟩ := World.restart_evolves h.saved
    have hempty : (w.handle env .restart).registry.clients = [] := congrArg Registry.clients he.registry
    refine ⟨[], ⟨?_, ?_, ?_, ?_, ?_⟩, Nat.zero_le _, fun d hd => absurd hd List.not_mem_nil⟩
    · simp [hempty, World.fate]
    · exact nofun
    · exact fun d _ hne => absurd rfl hne
    · exact nofun
    · exact nofun

/-- What an event makes of a session. A hung server does nothing until it is started anew. -/
def World.fateAt (env : Env) (w : World) (e : Event) (d : ClientPtr) : Fate :=
  match w.hung, e.act with
  | true, .restart => .ends
  | true, _ => w.registry.stays d
  | false, act => World.fate env { w with now := e.now } d act

end

/-- In every reachable state, what an event makes of every session can be told beforehand: exactly the sessions whose
fate is to end are gone, the others go on in their order, with the connection that was foretold, under their
token and with the address of the last connection. A session that begins does so because a connection opened. -/
theorem run_fates (env : Env) (es : List Event) (e : Event) :
    let w := run env es
    ∃ new, w.registry.Passage env (w.fateAt env e) new (w.step env e).registry ∧ new.length ≤ 1 ∧
      ∀ d ∈ new, w.Begins env e.act (w.step env e) d := by
  intro w
  have h : WF env w := wf_run env es
  obtain ⟨now, act⟩ := e
  cases hh : w.hung with
  | false =>
    have hfate : w.fateAt env ⟨now, act⟩ = fun d => World.fate env { w with now := now } d act := by
      unfold World.fateAt
      rw [hh]
    rw [World.step_running hh, hfate]
    obtain ⟨new, hpass, hone, hnew⟩ := World.handle_passes (h.chore (.clock now)) act
    exact ⟨new, hpass, hone, fun d hd => ⟨(hnew d hd).new, (hnew d hd).opens⟩⟩
  | true =>
    have hstay : ∀ w' : World, w'.registry = w.registry → w.registry.Passage env w.registry.stays [] w'.registry := by
      intro w' hreg
      rw [hreg]
      exact .stay h.indexed rfl rfl rfl rfl
    have hidle : ∀ act, act ≠ .restart → w.fateAt env ⟨now, act⟩ = w.registry.stays := by
      intro act hne
      unfold World.fateAt
      rw [hh]
      cases act with
      | restart => exact absurd rfl hne
      | _ => rfl
    cases act with
    | restart =>
      have hfate : w.fateAt env ⟨now, .restart⟩ = fun _ => .ends := by
        unfold World.fateAt
        rw [hh]
      have hrun : w.step env ⟨now, .restart⟩ = World.handle env { w with now := now } .restart := by
        unfold World.step
        dsimp only
        rw [hh]
      rw [hfate, hrun]
      obtain ⟨new, hpass, hone, hnew⟩ := World.handle_passes (h.chore (.clock now)) .restart
      exact ⟨new, hpass, hone, fun d hd => ⟨(hnew d hd).new, (hnew d hd).opens⟩⟩
    | save =>
      have hrun : (w.step env ⟨now, .save⟩).registry = w.registry := by
        unfold World.step
        dsimp only
        rw [hh]
        rfl
      rw [hidle _ (by simp)]
      exact ⟨[], hstay _ hrun, Nat.zero_le _, fun d hd => absurd hd List.not_mem_nil⟩
    | _ =>
      rw [hidle _ (by simp)]
      refine ⟨[], hstay _ ?_, Nat.zero_le _, fun d hd => absurd hd List.not_mem_nil⟩
      rw [World.step_hung hh (by simp)]
      rfl

end WsChat
