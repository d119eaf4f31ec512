import WsChat.History
import WsChat.Sessions
import WsChat.Lib.Window

/-! Flood control: the counter of a client is a limiter with a pause of one second and a
count of four, and nothing but its own messages touches it. -/
namespace WsChat
open Lib Relation

def Client.limiter (cli : Client) : Limiter := ⟨cli.lastMessageTime, cli.messageCounter⟩

def World.limiters (w : World) (c : ClientPtr) : Limiter := (w.clientAt c).limiter

section frames
variable (env : Env) (w : World)

@[simp] theorem World.limiters_emit (out : List (ConnectionPtr × Wire)) :
    (w.emit out).limiters = w.limiters := rfl

@[simp] theorem World.limiters_modifyMember (m : MemberPtr) (f : Member → Member) :
    (w.modifyMember m f).limiters = w.limiters := rfl

@[simp] theorem World.limiters_modifyRoom (r : RoomPtr) (f : Room → Room) :
    (w.modifyRoom r f).limiters = w.limiters := rfl

theorem World.limiters_update (c : ClientPtr) (f : Client → Client) :
    (w.modifyClient c f).limiters = Function.update w.limiters c (f (w.clientAt c)).limiter := by
  funext d
  by_cases hd : d = c
  · subst hd
    simp [World.limiters]
  · simp [World.limiters, hd]

theorem World.limiters_modifyClient (c : ClientPtr) {f : Client → Client}
    (hf : (f (w.clientAt c)).limiter = (w.clientAt c).limiter) :
    (w.modifyClient c f).limiters = w.limiters := by
  rw [World.limiters_update, hf]
  exact Function.update_eq_self c w.limiters

@[simp] theorem Client.sendPacket_limiters (c : ClientPtr) (p : Packet) :
    (Client.sendPacket w c p).limiters = w.limiters := by
  rw [Client.sendPacket_eq, World.limiters_emit]

@[simp] theorem Member.sendPacket_limiters (m : MemberPtr) (p : Packet) :
    (Member.sendPacket w m p).limiters = w.limiters := Client.sendPacket_limiters w _ p

@[simp] theorem Member.reply_limiters (m : MemberPtr) (msg : Bytes) :
    (Member.reply w m msg).limiters = w.limiters := Member.sendPacket_limiters w m _

@[simp] theorem Room.sendPacketToAll_limiters (r : RoomPtr) (p : Packet) :
    (Room.sendPacketToAll env w r p).limiters = w.limiters := by
  rw [Room.sendPacketToAll_eq, World.limiters_emit]
  unfold Room.addToHistory
  split
  · split
    · rfl
    · rfl
  · rfl

@[simp] theorem Room.say_limiters (r : RoomPtr) (p : PacketMessage) :
    (Room.say env w r p).limiters = w.limiters := by
  rw [Room.say_eq]
  rfl

@[simp] theorem Member.announce_limiters (m : MemberPtr) (stat : Status) :
    (Member.announce env w m stat).limiters = w.limiters := by
  rw [Member.announce_eq, World.limiters_emit]

@[simp] theorem Member.setNick_limiters (m : MemberPtr) (nick : Bytes) :
    (Member.setNick env w m nick).limiters = w.limiters := by
  unfold Member.setNick
  simp only [apply_ite World.limiters, Room.sendPacketToAll_limiters, Member.sendPacket_limiters,
    World.limiters_modifyMember, ite_self]

@[simp] theorem Client.setConnection_limiters (c : ClientPtr) (conn : Option ConnectionPtr) :
    (Client.setConnection env w c conn).limiters = w.limiters :=
  World.limiters_modifyClient w c rfl

@[simp] theorem Room.kickMember_limiters (r : RoomPtr) (m : MemberPtr) :
    (Room.kickMember env w r m).limiters = w.limiters := by
  rw [Room.kickMember_eq, World.limiters_modifyRoom, World.limiters_emit]
  exact World.limiters_modifyClient w _ rfl

@[simp] theorem Room.removeMember_limiters (r : RoomPtr) (c : ClientPtr) :
    (Room.removeMember env w r c).limiters = w.limiters := by
  unfold Room.removeMember
  cases Room.findMemberByClient w r c with
  | none => rfl
  | some m =>
    simp only [apply_ite World.limiters, World.limiters_modifyRoom, Room.sendPacketToAll_limiters, ite_self]

@[simp] theorem Client.leaveRoom_limiters (c : ClientPtr) (r : RoomPtr) :
    (Client.leaveRoom env w c r).limiters = w.limiters := by
  unfold Client.leaveRoom
  split
  · rw [Room.removeMember_limiters]
    exact World.limiters_modifyClient w c rfl
  · rfl

@[simp] theorem Client.onRemove_limiters (c : ClientPtr) :
    (Client.onRemove env w c).limiters = w.limiters := by
  have hloop := foldl_view World.limiters (fun w r => Room.removeMember env w r c)
    (fun w r => Room.removeMember_limiters env w r c) (w.clientAt c).rooms.elems w
  unfold Client.onRemove
  dsimp only
  rw [Client.setConnection_limiters, World.limiters_modifyClient _ c (by rfl), hloop]

@[simp] theorem Client.onDisconnect_limiters (c : ClientPtr) :
    (Client.onDisconnect env w c).limiters = w.limiters := by
  have hturn : ∀ w r, (Client.onDisconnectRoom env c w r).limiters = w.limiters := by
    intro w r
    unfold Client.onDisconnectRoom
    cases Room.findMemberByClient w r c with
    | none => rfl
    | some m =>
      simp only [apply_ite World.limiters, Room.sendPacketToAll_limiters]
      exact ite_self _
  unfold Client.onDisconnect
  rw [foldl_view World.limiters _ hturn, Client.setConnection_limiters]

@[simp] theorem Client.onRevive_limiters (c : ClientPtr) :
    (Client.onRevive env w c).limiters = w.limiters := by
  have hturn : ∀ w r, (Client.onReviveRoom env c w r).limiters = w.limiters := by
    intro w r
    unfold Client.onReviveRoom
    cases Room.findMemberByClient w r c with
    | none => rfl
    | some m =>
      simp only [foldl_sendRawData, apply_ite World.limiters, Room.sendPacketToAll_limiters, World.limiters_emit,
        Client.sendPacket_limiters]
      exact ite_self _
  unfold Client.onRevive
  dsimp only
  rw [foldl_view World.limiters _ hturn]
  exact World.limiters_modifyClient w c rfl

theorem Books.limiters {w w' : World} (h : Books w w') : w'.limiters = w.limiters := by
  obtain ⟨_, _, rfl⟩ := h
  rfl

@[simp] theorem ClientsManager.makeOrphan_limiters (c : ClientPtr) :
    (ClientsManager.makeOrphan env w c).limiters = w.limiters := by
  unfold ClientsManager.makeOrphan
  cases (w.clientAt c).connection with
  | none => rfl
  | some k =>
    dsimp only [ClientsManager.eraseConnection]
    cases (w.manager.connectionToClient.lookup k).isSome with
    | false => rfl
    | true =>
      dsimp only
      rw [Client.onDisconnect_limiters, (Books.decrementForIp _ _ _).limiters]
      rfl

@[simp] theorem ClientsManager.remove_limiters (c : ClientPtr) :
    (ClientsManager.remove env w c).limiters = w.limiters := by
  have hout := (Books.countOut w c).trans (Books.removeFromClients _ c)
  rw [ClientsManager.remove_eq, Client.onRemove_limiters]
  generalize ClientsManager.removeFromClients (ClientsManager.countOut w c) c = stage at hout ⊢
  obtain ⟨w₁, found⟩ := stage
  cases found with
  | false => exact hout.limiters
  | true => exact (hout.trans (Books.decrementForIp _ _ _)).limiters

@[simp] theorem Server.reviveClient_limiters (c t : ClientPtr) :
    (Server.reviveClient env w c t).1.limiters = w.limiters := by
  have hmanager : (ClientsManager.reviveClient env w c t).1.limiters = w.limiters := by
    cases hk : (w.clientAt c).connection with
    | none =>
      unfold ClientsManager.reviveClient
      simp only [hk]
    | some k =>
      have hout : Books w (ClientsManager.removeFromClients (ClientsManager.decrementForIp
          (ClientsManager.countOut w t) (w.clientAt t).lastClientIP .clients) c).1 :=
        ((Books.countOut w t).trans (Books.decrementForIp _ _ _)).trans (Books.removeFromClients _ c)
      rw [ClientsManager.reviveClient_eq hk]
      dsimp only
      rw [Client.onRevive_limiters, Client.setConnection_limiters]
      exact (Client.onRemove_limiters env _ c).trans hout.limiters
  unfold Server.reviveClient Server.closeConnection
  dsimp only
  split
  · split
    · exact hmanager
    · exact hmanager
  · exact hmanager

@[simp] theorem Server.removeRoom_limiters (name : Bytes) :
    (Server.removeRoom env w name).limiters = w.limiters := by
  have hturn : ∀ r w m, (Room.onDestroyMember env r w m).limiters = w.limiters := by
    intro r w m
    unfold Room.onDestroyMember
    rw [Member.sendPacket_limiters, Client.leaveRoom_limiters]
  unfold Server.removeRoom
  cases Server.getRoomByName w name with
  | none => rfl
  | some r => exact foldl_view World.limiters _ (hturn r) _ _

@[simp] theorem Member.whisper_limiters (m : MemberPtr) (m2 : Option MemberPtr) (smsg : Bytes) :
    (Member.whisper w m m2 smsg).limiters = w.limiters := by
  unfold Member.whisper
  split
  · exact Member.reply_limiters w m _
  · cases m2 with
    | none => exact Member.reply_limiters w m _
    | some m2 => simp only [Member.sendPacket_limiters]

@[simp] theorem Command.update_limiters (m : MemberPtr) (changes : Bool) (f : Room → Room) (done same : Bytes) :
    (Command.update w m changes f done same).limiters = w.limiters := by
  unfold Command.update
  simp only [apply_ite World.limiters, Member.reply_limiters, World.limiters_modifyRoom, ite_self]

theorem Command.withNick_limiters (m : MemberPtr) (parser : RegexParser) {act : Bytes → World}
    (h : ∀ nick, (act nick).limiters = w.limiters) :
    (Command.withNick w m parser act).limiters = w.limiters := by
  unfold Command.withNick
  simp only [apply_ite World.limiters, Member.reply_limiters, h, ite_self]

theorem Command.withUid_limiters (m : MemberPtr) (parser : RegexParser) {act : UInt32 → World}
    (h : ∀ uid, (act uid).limiters = w.limiters) :
    (Command.withUid w m parser act).limiters = w.limiters := by
  unfold Command.withUid
  split
  · exact h _
  · exact Member.reply_limiters w m _

theorem Command.withIp_limiters (m : MemberPtr) (parser : RegexParser) (refusal : Bytes)
    {act : Bytes → World} (h : ∀ ip, (act ip).limiters = w.limiters) :
    (Command.withIp w m parser refusal act).limiters = w.limiters := by
  unfold Command.withIp
  split
  · exact h _
  · exact Member.reply_limiters w m _

@[simp] theorem Command.process_limiters (cmd : Command) (m : MemberPtr) (parser : RegexParser) :
    (cmd.process env w m parser).limiters = w.limiters := by
  cases cmd with
  | nick =>
    simp only [Command.process, CommandNick.process, apply_ite World.limiters, Member.reply_limiters,
      Member.setNick_limiters, ite_self]
  | gender =>
    simp only [Command.process, CommandGender.process, Member.setGirl, Member.announce_limiters,
      World.limiters_modifyMember]
  | color =>
    simp only [Command.process, CommandColor.process, Member.setColor, apply_ite World.limiters,
      Member.announce_limiters, Member.reply_limiters, World.limiters_modifyMember, ite_self]
  | styledMessage style =>
    simp only [Command.process, CommandStyledMessage.process, apply_ite World.limiters, Member.reply_limiters,
      Room.say_limiters, ite_self]
  | privateMessage => exact Member.whisper_limiters w m _ _
  | privateMessageById => exact Member.whisper_limiters w m _ _
  | banNick =>
    simp only [Command.process, CommandBanNick.process, apply_ite World.limiters, Member.reply_limiters]
    rw [Command.withNick_limiters, ite_self]
    intro nick
    cases Room.findMemberByNick (w.modifyRoom (w.memberAt m).room fun rm =>
        { rm with bannedNicks := rm.bannedNicks.insert nick }) (w.memberAt m).room nick with
    | none => simp only [apply_ite World.limiters, Member.reply_limiters, World.limiters_modifyRoom, ite_self]
    | some m2 =>
      simp only [apply_ite World.limiters, Member.reply_limiters, Room.kickMember_limiters,
        World.limiters_modifyRoom, ite_self]
  | banUid =>
    simp only [Command.process, CommandBanUid.process, apply_ite World.limiters, Member.reply_limiters]
    rw [Command.withUid_limiters w m parser fun _ => Command.update_limiters w m _ _ _ _, ite_self]
  | banIp =>
    simp only [Command.process, CommandBanIp.process, apply_ite World.limiters, Member.reply_limiters]
    rw [Command.withIp_limiters w m parser _ fun _ => Command.update_limiters w m _ _ _ _, ite_self]
  | unbanNick => exact Command.withNick_limiters w m parser fun _ => Command.update_limiters w m _ _ _ _
  | unbanUid => exact Command.withUid_limiters w m parser fun _ => Command.update_limiters w m _ _ _ _
  | unbanIp => exact Command.withIp_limiters w m parser _ fun _ => Command.update_limiters w m _ _ _ _
  | kick =>
    simp only [Command.process, CommandKick.process]
    cases Room.findMemberByNick w (w.memberAt m).room parser.suffix with
    | none => exact Member.reply_limiters w m _
    | some m2 => exact Room.kickMember_limiters env w _ m2
  | addModer =>
    simp only [Command.process, CommandAddModer.process, apply_ite World.limiters, Member.reply_limiters]
    rw [Command.withUid_limiters, ite_self]
    intro uid
    simp only [apply_ite World.limiters, Member.reply_limiters, Command.update_limiters, ite_self]
  | delModer => exact Command.withUid_limiters w m parser fun _ => Command.update_limiters w m _ _ _ _
  | help | myRoomList | moderList | banList | userList | roomList | ipCounter =>
    exact Member.reply_limiters w m _

@[simp] theorem PacketStatus.process_limiters (c : ClientPtr) (p : PacketStatus) :
    (PacketStatus.process env w c p).limiters = w.limiters := by
  have hturn : ∀ w r, (PacketStatus.presenceRoom env c p.status w r).limiters = w.limiters := by
    intro w r
    unfold PacketStatus.presenceRoom
    cases Room.findMemberByClient w r c with
    | none => rfl
    | some m =>
      simp only [apply_ite World.limiters, Room.sendPacketToAll_limiters]
      exact ite_self _
  unfold PacketStatus.process
  split
  · exact foldl_view World.limiters _ hturn _ w
  · split
    · cases Client.getRoomByName w c p.target with
      | none => rfl
      | some r =>
        dsimp only
        cases Room.findMemberByClient w r c with
        | none => rfl
        | some m => simp only [apply_ite World.limiters, Room.sendPacketToAll_limiters, ite_self]
    · rfl

theorem PacketJoin.restore_limiters (c : ClientPtr) (r : RoomPtr) (m : MemberPtr) :
    (PacketJoin.restore w c r m).2.limiters = w.limiters := by
  obtain ⟨girl, color, hw⟩ := PacketJoin.restore_world w c r m
  rw [hw, World.limiters_modifyMember]

theorem PacketJoin.autoNick_limiters (c : ClientPtr) (r : RoomPtr) (m : MemberPtr) (p : PacketJoin) :
    (PacketJoin.autoNick w c r m p).2.limiters = w.limiters := by
  unfold PacketJoin.autoNick
  split
  · obtain ⟨⟨out, -, he⟩, -⟩ := PacketJoin.checkNick_spec (fun _ => True)
      (PacketJoin.restore w c r m).2 r m (PacketJoin.restore w c r m).1
    dsimp only
    rw [he, World.limiters_emit, PacketJoin.restore_limiters]
  · rfl

theorem PacketJoin.welcome_limiters (c : ClientPtr) (r : RoomPtr) (m : MemberPtr) (p : PacketJoin) :
    (PacketJoin.welcome env w c r m p).limiters = w.limiters := by
  rw [PacketJoin.welcome_eq]
  dsimp only [PacketJoin.settle]
  simp only [apply_ite World.limiters, Member.sendPacket_limiters, Member.setNick_limiters,
    PacketJoin.autoNick_limiters, World.limiters_emit, ite_self]

@[simp] theorem PacketJoin.process_limiters (c : ClientPtr) (p : PacketJoin) :
    (PacketJoin.process env w c p).limiters = w.limiters := by
  have hissue : ∀ r id, (w.issue c r id).limiters = w.limiters := fun _ _ => rfl
  have henter : ∀ r id, (w.enter c r id).limiters = w.limiters := by
    intro r id
    funext d
    by_cases hd : d = c
    · subst hd
      simp [World.limiters, World.enter, Client.limiter]
    · simp [World.limiters, World.enter, hd]
  unfold PacketJoin.process
  cases Client.getRoomByName w c p.target with
  | some r => exact Client.sendPacket_limiters w c _
  | none =>
    cases Server.getRoomByName w p.target with
    | none => exact Client.sendPacket_limiters w c _
    | some r =>
      dsimp only
      rcases Client.joinRoom_cases w c r with ⟨id, hid, hjoin | ⟨e, he, hjoin⟩⟩ | hjoin
      · rw [hjoin]
        exact (PacketJoin.welcome_limiters env _ c r _ p).trans (henter r id)
      · rw [hjoin]
        cases e with
        | hung => exact absurd rfl he
        | bannedByIP => exact (Client.sendPacket_limiters _ c _).trans (hissue r id)
        | bannedByID => exact (Client.sendPacket_limiters _ c _).trans (hissue r id)
      · rw [hjoin]
        rfl

@[simp] theorem PacketAuth.process_limiters (sv : AuthServices) (c : ClientPtr) (p : PacketAuth) :
    (PacketAuth.process env sv w c p).limiters = w.limiters := by
  have hanswer : ∀ result (w : World), (PacketAuth.answer sv p c result w).limiters = w.limiters := by
    intro result w
    unfold PacketAuth.answer
    split
    · exact Client.sendPacket_limiters w c _
    · split
      · exact Client.sendPacket_limiters w c _
      · exact Client.sendPacket_limiters w c _
    · exact Client.sendPacket_limiters w c _
    · exact Client.sendPacket_limiters w c _
  unfold PacketAuth.process
  cases sv.construct with
  | error _ => exact Client.sendPacket_limiters w c _
  | ok _ =>
    dsimp only
    cases PacketAuth.target w c p with
    | some t => exact (Server.reviveClient_limiters env _ c t).trans (Client.sendPacket_limiters w c _)
    | none =>
      dsimp only
      rw [PacketAuth.processLogin_eq]
      dsimp only
      rw [hanswer]
      cases ((PacketAuth.authenticate env sv (w.clientAt c).lastClientIP
        ((w.clientAt c).connection.bind env.sinid) p).run {}).2.user with
      | none => rfl
      | some user =>
        dsimp only [Option.elim_some, PacketAuth.initUser]
        exact World.limiters_modifyClient w c rfl

@[simp] theorem PacketLeave.process_limiters (c : ClientPtr) (p : PacketTarget) :
    (PacketLeave.process env w c p).limiters = w.limiters := by
  unfold PacketLeave.process
  cases Client.getRoomByName w c p.target with
  | none => exact Client.sendPacket_limiters w c _
  | some r => exact (Client.sendPacket_limiters _ c _).trans (Client.leaveRoom_limiters env w c r)

@[simp] theorem PacketCreateRoom.process_limiters (c : ClientPtr) (p : PacketTarget) :
    (PacketCreateRoom.process w c p).limiters = w.limiters := by
  unfold PacketCreateRoom.process
  split
  · exact Client.sendPacket_limiters w c _
  · split
    · exact Client.sendPacket_limiters w c _
    · cases hroom : Server.getRoomByName w p.target with
      | some r =>
        simp only [Server.createRoom, hroom]
        exact Client.sendPacket_limiters w c _
      | none =>
        simp only [Server.createRoom_eq hroom]
        exact Client.sendPacket_limiters _ c _

@[simp] theorem PacketRemoveRoom.process_limiters (c : ClientPtr) (p : PacketTarget) :
    (PacketRemoveRoom.process env w c p).limiters = w.limiters := by
  unfold PacketRemoveRoom.process
  split
  · exact Client.sendPacket_limiters w c _
  · cases Server.getRoomByName w p.target with
    | none => exact Client.sendPacket_limiters w c _
    | some r =>
      dsimp only
      split
      · exact (Client.sendPacket_limiters _ c _).trans (Server.removeRoom_limiters env w _)
      · exact Client.sendPacket_limiters w c _

end frames

section messages
variable {env : Env} {w : World} {c : ClientPtr}

theorem PacketMessage.resetFlood_limiters : (PacketMessage.resetFlood w c).limiters =
    Function.update w.limiters c ((w.limiters c).reset 1 w.now) := by
  unfold PacketMessage.resetFlood Limiter.reset
  by_cases h : 1 < w.now - (w.clientAt c).lastMessageTime
  · rw [if_pos h, if_pos (by exact_mod_cast h), World.limiters_update]
    rfl
  · rw [if_neg h, if_neg (by exact_mod_cast h), Function.update_eq_self]

theorem PacketMessage.resetFlood_of_recent (h : ¬ 1 < w.now - (w.clientAt c).lastMessageTime) :
    PacketMessage.resetFlood w c = w := if_neg h

theorem PacketMessage.processCommand_limiters {m : MemberPtr} {r : RoomPtr} {msg : Bytes} {w' : World}
    (h : PacketMessage.processCommand env w m r msg = some w') : w'.limiters = w.limiters := by
  unfold PacketMessage.processCommand at h
  split at h
  · cases h
  · dsimp only at h
    split at h
    · cases h
      exact Member.sendPacket_limiters w m _
    · split at h
      · cases h
        exact Command.process_limiters env w _ m _
      · cases h
        exact Member.sendPacket_limiters w m _

/-- The message is refused for flooding. -/
def PacketMessage.Refused (w : World) (c : ClientPtr) : Prop :=
  3 < ((PacketMessage.resetFlood w c).clientAt c).messageCounter

instance (w : World) (c : ClientPtr) : Decidable (PacketMessage.Refused w c) :=
  inferInstanceAs (Decidable (3 < _))

/-- The message gets past the check for flooding and the check for blank texts. -/
def PacketMessage.Passes (w : World) (c : ClientPtr) (p : PacketMessage) : Prop :=
  ¬ PacketMessage.Refused w c ∧ ¬ Rx.blank.fullMatch p.message

instance (w : World) (c : ClientPtr) (p : PacketMessage) : Decidable (PacketMessage.Passes w c p) :=
  inferInstanceAs (Decidable (_ ∧ _))

theorem PacketMessage.refused_iff : PacketMessage.Refused w c ↔ ¬ ((w.limiters c).reset 1 w.now).count < 4 := by
  have hreset := congrFun (PacketMessage.resetFlood_limiters (w := w) (c := c)) c
  rw [Function.update_self] at hreset
  rw [← hreset]
  change 3 < ((PacketMessage.resetFlood w c).clientAt c).messageCounter ↔
    ¬ ((PacketMessage.resetFlood w c).clientAt c).messageCounter < 4
  omega

theorem PacketMessage.passes_iff {p : PacketMessage} : PacketMessage.Passes w c p ↔
    (w.limiters c).passes 1 4 w.now (!Rx.blank.fullMatch p.message) := by
  have hcount := PacketMessage.refused_iff (w := w) (c := c)
  simp only [PacketMessage.Passes, hcount, Limiter.passes, Bool.and_eq_true, decide_eq_true_eq,
    Bool.not_eq_true', not_not, Bool.not_eq_true]
  rfl

theorem PacketMessage.process_limiters {p : PacketMessage} (hp : ¬ (p.target = [] ∨ p.message = [])) :
    (PacketMessage.process env w c p).limiters = Function.update w.limiters c
      ((w.limiters c).step 1 4 (w.now, !Rx.blank.fullMatch p.message)) := by
  have hreset := PacketMessage.resetFlood_limiters (w := w) (c := c)
  have hpasses := PacketMessage.passes_iff (w := w) (c := c) (p := p)
  unfold PacketMessage.Passes PacketMessage.Refused at hpasses
  unfold PacketMessage.process Limiter.step
  rw [if_neg hp]
  dsimp only
  generalize PacketMessage.resetFlood w c = w₁ at hreset hpasses ⊢
  by_cases hcount : 3 < (w₁.clientAt c).messageCounter
  · rw [if_pos hcount, if_neg fun h => (hpasses.mpr h).1 hcount, Client.sendPacket_limiters, hreset]
  rw [if_neg hcount]
  by_cases hblank : Rx.blank.fullMatch p.message
  · rw [if_pos hblank, if_neg fun h => (hpasses.mpr h).2 hblank, Client.sendPacket_limiters, hreset]
  rw [if_neg hblank, if_pos (hpasses.mp ⟨hcount, hblank⟩)]
  have hself : (w₁.clientAt c).limiter = (w.limiters c).reset 1 w.now := by
    have := congrFun hreset c
    rwa [Function.update_self] at this
  have hcounted : (w₁.modifyClient c fun cli => { cli with messageCounter := cli.messageCounter + 1 }).limiters =
      Function.update w.limiters c { (w.limiters c).reset 1 w.now with
        count := ((w.limiters c).reset 1 w.now).count + 1 } := by
    rw [World.limiters_update, hreset, Function.update_idem, ← hself]
    rfl
  rw [← hcounted]
  generalize (w₁.modifyClient c fun cli => { cli with messageCounter := cli.messageCounter + 1 }) = w₂
  cases Client.getRoomByName w₂ c p.target with
  | none => exact Client.sendPacket_limiters w₂ c _
  | some r =>
    dsimp only
    cases Room.findMemberByClient w₂ r c with
    | none => rfl
    | some m =>
      dsimp only
      cases hcmd : PacketMessage.processCommand env w₂ m r p.message with
      | some w' => exact PacketMessage.processCommand_limiters hcmd
      | none =>
        dsimp only
        split
        · exact Client.sendPacket_limiters w₂ c _
        · exact Room.say_limiters env w₂ r _

theorem Packet.process_limiters (sv : AuthServices) {p : Packet} (hp : ∀ q, p ≠ .message q) :
    (p.process env sv w c).limiters = w.limiters := by
  cases p with
  | message q => exact absurd rfl (hp q)
  | error | system | ping => rfl
  | onlineList p =>
    change (PacketOnlineList.process w c p).limiters = w.limiters
    unfold PacketOnlineList.process
    cases Client.getRoomByName w c p.target with
    | none => exact Client.sendPacket_limiters w c _
    | some r => exact Client.sendPacket_limiters w c _
  | auth p => exact PacketAuth.process_limiters env w sv c p
  | status p => exact PacketStatus.process_limiters env w c p
  | join p => exact PacketJoin.process_limiters env w c p
  | leave p => exact PacketLeave.process_limiters env w c p
  | createRoom p => exact PacketCreateRoom.process_limiters w c p
  | removeRoom p => exact PacketRemoveRoom.process_limiters env w c p

end messages

section numbering
variable {env : Env} {c : ClientPtr} {w₀ w w' : World} {S : Bytes → Prop}

theorem Registry.unlink_nextClient (g : Registry) (c : ClientPtr) :
    (g.unlink c).nextClient = g.nextClient := by
  unfold Registry.unlink
  cases g.connection c with
  | none => rfl
  | some k => rfl

theorem Evolves.nextClient {g : Registry} {ms : Membership ClientPtr RoomPtr MemberPtr Bytes}
    (h : Evolves w g ms w') : w'.nextClient = g.nextClient := congrArg Registry.nextClient h.registry

theorem Move.nextClient (hw : WF env w) (h : Move env c w₀ S w w') : w'.nextClient = w.nextClient := by
  cases h with
  | quiet hq => exact hq.frame.nextClient
  | hang => rfl
  | issue r id _ => rfl
  | enter r id _ _ _ hc hr hcr => rfl
  | leave r _ hr =>
    obtain ⟨m, hm, -, he⟩ := Client.leaveRoom_evolves env hw.linked hr
    exact he.nextClient
  | kick r m _ hm =>
    have he : Evolves w _ _ (Room.kickMember env w r m) := Room.kickMember_evolves
    exact he.nextClient
  | banKick r m nick _ hm =>
    have he : Evolves (w.modifyRoom r fun rm => { rm with bannedNicks := rm.bannedNicks.insert nick }) _ _
        (Room.kickMember env _ r m) := Room.kickMember_evolves
    exact he.nextClient
  | create name _ _ hname _ => rfl
  | raze r name _ hr => exact (Server.removeRoom_evolves hw.linked hr).nextClient
  | revive t k p _ hc ht hct hk =>
    have hw' : WF env (w.emit [(k, .packet p)]) := hw.frame (Frame.emit w _)
    have he := (ClientsManager.reviveClient_evolves hw'.indexed hw'.linked hc ht hct hk).then_frame
      (Server.reviveClient_frame _ c t)
    exact he.nextClient.trans (Registry.unlink_nextClient _ t)

variable (env) in
theorem ClientsManager.connect_limiter (w : World) (k : ConnectionPtr) (draws : List ClientsManager.Token)
    {d : ClientPtr} (hd : d.addr < w.nextClient) :
    d.addr < (ClientsManager.connect env w k draws).nextClient ∧
      (ClientsManager.connect env w k draws).limiters d = w.limiters d := by
  unfold ClientsManager.connect
  cases draws.find? fun t => !(w.manager.tokenToClient.lookup t.1).isSome with
  | none => exact ⟨hd, rfl⟩
  | some drawn =>
    have hne : d ≠ ⟨w.nextClient⟩ := fun he => Nat.lt_irrefl _ (he ▸ hd)
    exact ⟨Nat.lt_succ_of_lt hd, by simp [World.limiters, Client.setConnection, hne]⟩

theorem Routine.limiter (hw : WF env w) (h : Routine env w w') {d : ClientPtr} (hd : d.addr < w.nextClient) :
    d.addr < w'.nextClient ∧ w'.limiters d = w.limiters d := by
  cases h with
  | clock now => exact ⟨hd, rfl⟩
  | ping e => exact ⟨by rwa [Client.sendPacket_eq], by rw [Client.sendPacket_limiters]⟩
  | mark k => exact ⟨hd, rfl⟩
  | orphan e he =>
    have hnext := (ClientsManager.makeOrphan_evolves hw.indexed hw.linked he).nextClient
    rw [hnext, Registry.unlink_nextClient, ClientsManager.makeOrphan_limiters]
    exact ⟨hd, rfl⟩
  | drop e he =>
    have hnext := (ClientsManager.remove_evolves hw.indexed hw.linked he).nextClient
    rw [hnext, ClientsManager.remove_limiters]
    exact ⟨lt_of_lt_of_eq hd (Registry.unlink_nextClient w.registry e).symm, rfl⟩
  | opening k draws hk =>
    have hd₁ : d.addr < (w.arrival env k).nextClient := hd
    rcases Server.onOpen_cases env hw k draws with ⟨-, he⟩ | ⟨-, ⟨-, he⟩ | ⟨x, hx, -, hxk, -, he⟩⟩
    · rw [he]
      exact ⟨hd, rfl⟩
    · rw [he]
      exact ClientsManager.connect_limiter env _ k draws hd₁
    · rw [he]
      have hev := ClientsManager.remove_orphan_evolves (World.arrival_indexed (k := k) hw) hw.linked hx hxk
      have hlim := ClientsManager.remove_limiters env (w.arrival env k) x
      generalize ClientsManager.remove env (w.arrival env k) x = w₁ at hev hlim ⊢
      obtain ⟨hnext, hsame⟩ := ClientsManager.connect_limiter env w₁ k draws
        (lt_of_lt_of_eq hd₁ hev.nextClient.symm)
      exact ⟨hnext, hsame.trans (congrFun hlim d)⟩

end numbering

section runs
variable (env : Env)

def World.messageOf (w : World) (e : Event) (c : ClientPtr) : Option PacketMessage :=
  match w.hung, e.act with
  | false, .message k (some obj) _ =>
    if ClientsManager.findClientByConnection w k = some c then
      match Packet.read {} obj with
      | .ok (some (.message p)) => if p.target = [] ∨ p.message = [] then none else some p
      | _ => none
    else none
  | _, _ => none

def World.heard (w : World) (now : Int) (c : ClientPtr) : World :=
  World.modifyClient { w with now := now } c fun cli => { cli with lastPacketTime := now }

/-- The messages of a client, each with the world in which it is processed. A client ends with
its process. -/
def World.messages (w : World) (c : ClientPtr) : List Event → List (World × PacketMessage)
  | [] => []
  | e :: es =>
    match e.act with
    | .restart => []
    | _ => ((w.messageOf e c).map fun p => (w.heard e.now c, p)).toList ++
        World.messages (w.step env e) c es

def World.messageTimes (w : World) (c : ClientPtr) (es : List Event) : List Int :=
  (w.messages env c es).map fun x => x.1.now

/-- The times of its messages that get past the checks for flooding and blank texts. -/
def World.passTimes (w : World) (c : ClientPtr) (es : List Event) : List Int :=
  ((w.messages env c es).filter fun x => PacketMessage.Passes x.1 c x.2).map fun x => x.1.now

def World.requests (w : World) (c : ClientPtr) (es : List Event) : List (Int × Bool) :=
  (w.messages env c es).map fun x => (x.1.now, !Rx.blank.fullMatch x.2.message)

variable {env} {w : World} {c : ClientPtr} {e : Event}

theorem World.messageOf_some (env : Env) {p : PacketMessage} (h : w.messageOf e c = some p) :
    ∃ k obj sv, e.act = .message k (some obj) sv ∧ w.hung = false ∧
      ClientsManager.findClientByConnection w k = some c ∧ Packet.read env.unset obj = .ok (some (.message p)) ∧
      ¬ (p.target = [] ∨ p.message = []) := by
  unfold World.messageOf at h
  split at h
  · rename_i k obj sv hh ha
    split at h
    · rename_i hc
      split at h
      · rename_i q hq
        split at h
        · cases h
        · rename_i hne
          cases h
          exact ⟨k, obj, sv, ha, hh, hc, Packet.read_message _ hq, hne⟩
      · cases h
    · cases h
  · cases h

theorem World.step_message {p : PacketMessage} (h : w.messageOf e c = some p) :
    w.step env e = PacketMessage.process env (w.heard e.now c) c p := by
  obtain ⟨k, obj, sv, ha, hh, hc, hp, -⟩ := World.messageOf_some env h
  rw [World.step_running hh, ha]
  exact Server.onMessage_read (w := { w with now := e.now }) hc hp sv

@[simp] theorem World.heard_now (now : Int) : (w.heard now c).now = now := rfl

theorem World.heard_limiters (now : Int) : (w.heard now c).limiters = w.limiters :=
  World.limiters_modifyClient { w with now := now } c rfl

theorem Server.onMessage_limiter (hh : w.hung = false) {k : ConnectionPtr} {msg : Option Json}
    {sv : AuthServices} (ha : e.act = .message k msg sv) (hnone : w.messageOf e c = none) :
    (Server.onMessage env sv { w with now := e.now } k msg).limiters c = w.limiters c := by
  unfold Server.onMessage
  cases hfind : ClientsManager.findClientByConnection { w with now := e.now } k with
  | none => rfl
  | some d =>
    dsimp only
    unfold Client.onPacket
    split
    · rename_i pack hread
      have htouch : (World.modifyClient { w with now := e.now } d fun cli =>
          { cli with lastPacketTime := e.now }).limiters = w.limiters :=
        World.limiters_modifyClient { w with now := e.now } d rfl
      by_cases hmsg : ∃ q, pack = .message q
      · obtain ⟨q, rfl⟩ := hmsg
        change (PacketMessage.process env _ d q).limiters c = _
        by_cases hempty : q.target = [] ∨ q.message = []
        · rw [PacketMessage.process, if_pos hempty, htouch]
        · have hdc : c ≠ d := by
            rintro rfl
            cases msg with
            | none => cases hread
            | some obj =>
              have hq : Packet.read {} obj = .ok (some (.message q)) :=
                Packet.read_message {} (Option.some.inj hread)
              have hc : ClientsManager.findClientByConnection w k = some c := hfind
              rw [World.messageOf, hh, ha] at hnone
              simp [hc, hq, hempty] at hnone
          rw [PacketMessage.process_limiters hempty, Function.update_of_ne hdc, htouch]
      · rw [Packet.process_limiters sv fun q he => hmsg ⟨q, he⟩, htouch]
    · rfl

theorem Routines.limiter {w' : World} (hw : WF env w) (h : Routines env w w') (hc : c.addr < w.nextClient) :
    c.addr < w'.nextClient ∧ w'.limiters c = w.limiters c := by
  refine steps_preserve_under (P := WF env) (Q := fun w' => c.addr < w'.nextClient ∧ w'.limiters c = w.limiters c)
    (fun _ _ h hr => h.routine hr) ?_ h hw ⟨hc, rfl⟩
  intro w₁ w₂ h₁ hp hr
  obtain ⟨hnext, hsame⟩ := hr.limiter h₁ hp.1
  exact ⟨hnext, hsame.trans hp.2⟩

/-- What an event does to the counter of a client that is numbered. -/
theorem World.step_limiter (hw : WF env w) (hc : c.addr < w.nextClient) (he : e.act ≠ .restart) :
    c.addr < (w.step env e).nextClient ∧ (w.step env e).limiters c =
      (((w.messageOf e c).map fun p => (e.now, !Rx.blank.fullMatch p.message)).toList).foldl
        (Limiter.step 1 4) (w.limiters c) := by
  have hw₁ : WF env { w with now := e.now } := hw.chore (.clock e.now)
  have hroutines : ∀ w', Routines env { w with now := e.now } w' →
      c.addr < w'.nextClient ∧ w'.limiters c = w.limiters c := by
    intro w' h
    have hsame := Routines.limiter hw₁ h hc
    exact hsame
  -- no message: the counter is to stay
  have hquiet : w.messageOf e c = none →
      (c.addr < (w.step env e).nextClient ∧ (w.step env e).limiters c = w.limiters c) →
        c.addr < (w.step env e).nextClient ∧ (w.step env e).limiters c =
          (((w.messageOf e c).map fun p => (e.now, !Rx.blank.fullMatch p.message)).toList).foldl
            (Limiter.step 1 4) (w.limiters c) := by
    intro hnone h
    rw [hnone]
    exact h
  obtain ⟨now, act⟩ := e
  cases hh : w.hung with
  | true =>
    apply hquiet (by rw [World.messageOf, hh])
    by_cases hact : act = .save ∨ act = .restart
    · cases hact with
      | inl hs =>
        subst hs
        rw [World.step_save]
        exact ⟨hc, rfl⟩
      | inr hr => exact absurd hr he
    · rw [World.step_hung hh hact]
      exact ⟨hc, rfl⟩
  | false =>
    have hrun : w.step env ⟨now, act⟩ = World.handle env { w with now := now } act :=
      World.step_running hh ⟨now, act⟩
    cases act with
    | message k msg sv =>
      obtain ⟨d, hs⟩ := Server.onMessage_steps hw₁ sv k msg
      have hnext : (w.step env ⟨now, .message k msg sv⟩).nextClient = w.nextClient := by
        rw [hrun]
        exact steps_preserve_under (P := WF env) (Q := fun w' => w'.nextClient = w.nextClient)
          (fun _ _ h hm => h.move hm) (fun _ _ h hq hm => (hm.nextClient h).trans hq) hs hw₁ rfl
      cases hm : w.messageOf ⟨now, .message k msg sv⟩ c with
      | none =>
        rw [hnext, hrun]
        exact ⟨hc, Server.onMessage_limiter hh rfl hm⟩
      | some p =>
        obtain ⟨_, _, _, _, _, _, _, hp⟩ := World.messageOf_some env hm
        rw [hnext, World.step_message hm, PacketMessage.process_limiters hp, Function.update_self,
          World.heard_limiters]
        exact ⟨hc, rfl⟩
    | connected k draws =>
      apply hquiet (by rw [World.messageOf, hh])
      rw [hrun]
      by_cases hk : k ∈ w.opened
      · rw [show World.handle env { w with now := now } (.connected k draws) = { w with now := now } from if_pos hk]
        exact ⟨hc, rfl⟩
      · have hopening : Routines env { w with now := now } (World.handle env { w with now := now }
            (.connected k draws)) := by
          rw [show World.handle env { w with now := now } (.connected k draws) = _ from if_neg hk]
          exact .single (.opening k draws hk)
        exact hroutines _ hopening
    | closed k status =>
      apply hquiet (by rw [World.messageOf, hh])
      rw [hrun]
      exact hroutines _ (Server.onClose_routines hw₁ k status)
    | failed k =>
      apply hquiet (by rw [World.messageOf, hh])
      rw [hrun]
      exact hroutines _ (ClientsManager.makeOrphanByConnection_routines hw₁ k)
    | tick =>
      apply hquiet (by rw [World.messageOf, hh])
      rw [hrun]
      exact hroutines _ (Server.onTimer_routines hw₁)
    | save =>
      apply hquiet (by rw [World.messageOf, hh])
      rw [hrun]
      exact ⟨hc, rfl⟩
    | restart => exact absurd rfl he

theorem World.messages_restart (he : e.act = .restart) (w : World) (c : ClientPtr) (es : List Event) :
    w.messages env c (e :: es) = [] := by
  rw [World.messages, he]

theorem World.messages_cons (he : e.act ≠ .restart) (w : World) (c : ClientPtr) (es : List Event) :
    w.messages env c (e :: es) = ((w.messageOf e c).map fun p => (w.heard e.now c, p)).toList ++
      (w.step env e).messages env c es := by
  rw [World.messages]
  split
  · rename_i hr
    exact absurd hr he
  · rfl

theorem World.passTimes_eq (hw : WF env w) (hc : c.addr < w.nextClient) (es : List Event) :
    w.passTimes env c es = (w.limiters c).passed 1 4 (w.requests env c es) := by
  induction es generalizing w with
  | nil => rfl
  | cons e es ih =>
    by_cases he : e.act = .restart
    · rw [World.passTimes, World.requests, World.messages_restart he]
      rfl
    · obtain ⟨hnext, hstep⟩ := World.step_limiter hw hc he
      have hrest := ih (hw.step e) hnext
      rw [World.passTimes, World.requests] at hrest
      rw [World.passTimes, World.requests, World.messages_cons he, List.filter_append, List.map_append,
        List.map_append, hrest, hstep]
      cases w.messageOf e c with
      | none => rfl
      | some p =>
        have hpass : PacketMessage.Passes (w.heard e.now c) c p ↔
            (w.limiters c).passes 1 4 e.now (!Rx.blank.fullMatch p.message) := by
          rw [PacketMessage.passes_iff, World.heard_limiters]
          rfl
        by_cases hp : PacketMessage.Passes (w.heard e.now c) c p
        · simp [hp, Limiter.passed, hpass.mp hp]
        · have hno : (w.limiters c).passes 1 4 e.now (!Rx.blank.fullMatch p.message) = false := by
            simpa using fun h => hp (hpass.mpr h)
          simp [hp, Limiter.passed, hno]

theorem World.requests_times (w : World) (c : ClientPtr) (es : List Event) :
    (w.requests env c es).map Prod.fst = w.messageTimes env c es := by
  simp only [World.requests, World.messageTimes, List.map_map]
  rfl

theorem ClientsManager.connect_starts {k : ConnectionPtr} {draws : List ClientsManager.Token}
    (hold : c ∉ w.manager.clients) (hnew : c ∈ (ClientsManager.connect env w k draws).manager.clients) :
    c.addr < (ClientsManager.connect env w k draws).nextClient ∧
      (ClientsManager.connect env w k draws).limiters c = ⟨w.now, 0⟩ := by
  unfold ClientsManager.connect at hnew ⊢
  cases hd : draws.find? fun t => !(w.manager.tokenToClient.lookup t.1).isSome with
  | none =>
    rw [hd] at hnew
    exact absurd hnew hold
  | some drawn =>
    obtain ⟨token, _⟩ := drawn
    rw [hd] at hnew
    have hc : c = ⟨w.nextClient⟩ := by
      cases List.mem_append.mp hnew with
      | inl hin => exact absurd hin hold
      | inr hin => exact List.mem_singleton.mp hin
    subst hc
    exact ⟨Nat.lt_succ_self _, by simp [World.limiters, Client.limiter, Client.setConnection]⟩

theorem World.step_starts (hw : WF env w) {t : Int} {k : ConnectionPtr} {draws : List ClientsManager.Token}
    (hold : c ∉ w.manager.clients) (hnew : c ∈ (w.step env ⟨t, .connected k draws⟩).manager.clients) :
    c.addr < (w.step env ⟨t, .connected k draws⟩).nextClient ∧
      (w.step env ⟨t, .connected k draws⟩).limiters c = ⟨t, 0⟩ := by
  have hw₁ : WF env { w with now := t } := hw.chore (.clock t)
  cases hh : w.hung with
  | true =>
    rw [World.step_hung hh (by simp)] at hnew
    exact absurd hnew hold
  | false =>
    have hrun : w.step env ⟨t, .connected k draws⟩ =
        World.handle env { w with now := t } (.connected k draws) := World.step_running hh _
    by_cases hk : k ∈ w.opened
    · rw [hrun, show World.handle env { w with now := t } (.connected k draws) = _ from if_pos hk] at hnew
      exact absurd hnew hold
    · rw [hrun, show World.handle env { w with now := t } (.connected k draws) = _ from if_neg hk] at hnew ⊢
      have hold₁ : c ∉ (World.arrival env { w with now := t } k).manager.clients := hold
      have hnow : (World.arrival env { w with now := t } k).now = t := rfl
      rcases Server.onOpen_cases env hw₁ k draws with ⟨-, he⟩ | ⟨-, ⟨-, he⟩ | ⟨x, hx, -, hxk, -, he⟩⟩
      · rw [he] at hnew
        exact absurd hnew hold
      · rw [he] at hnew ⊢
        rw [← hnow]
        exact ClientsManager.connect_starts hold₁ hnew
      · have hev := ClientsManager.remove_orphan_evolves (World.arrival_indexed (k := k) hw₁) hw₁.linked hx hxk
        have hleft : (ClientsManager.remove env (World.arrival env { w with now := t } k) x).now = t := by
          have hlinked : (World.arrival env { w with now := t } k).membership.Linked := hw₁.linked
          have hnormal : ∃ manager clamped, ClientsManager.remove env (World.arrival env { w with now := t } k) x =
              { (World.arrival env { w with now := t } k).withdraw x with
                manager := manager, clamped := clamped } := ClientsManager.remove_normal hlinked
          obtain ⟨manager, clamped, hn⟩ := hnormal
          rw [hn]
          rfl
        rw [he] at hnew ⊢
        generalize ClientsManager.remove env (World.arrival env { w with now := t } k) x = w₁ at hev hleft hnew ⊢
        rw [← hleft]
        refine ClientsManager.connect_starts ?_ hnew
        have hclients : w₁.manager.clients = (World.arrival env { w with now := t } k).manager.clients.erase x :=
          congrArg Registry.clients hev.registry
        rw [hclients]
        exact fun hin => hold₁ (List.mem_of_mem_erase hin)

/-- Messages are controlled against flooding. In a run after the moment in which a connection
makes a client, at most four more of its messages get past the checks than in any interval
pauses of a second fit. A message that comes two seconds after the count last started is not
refused, and one that is refused has one system packet for its sender as its only effect. -/
theorem run_flood_controlled (env : Env) :
    (∀ es₀ t k draws c, c ∉ (run env es₀).manager.clients →
      let w := (run env es₀).step env ⟨t, .connected k draws⟩
      c ∈ w.manager.clients → ∀ es, (t :: w.messageTimes env c es).Pairwise (· ≤ ·) →
        ∀ a : Int, ∀ n : Nat,
          (w.passTimes env c es).countP (fun u => a ≤ u ∧ u ≤ a + n) ≤ 4 * (1 + (n + 1) / 2)) ∧
    (∀ es e c p, (run env es).messageOf e c = some p →
      (2 ≤ e.now - ((run env es).clientAt c).lastMessageTime →
        ¬ PacketMessage.Refused ((run env es).heard e.now c) c) ∧
      (PacketMessage.Refused ((run env es).heard e.now c) c →
        (run env es).step env e = Client.sendPacket ((run env es).heard e.now c) c (.system {
          target := p.target, message := utf8 "Вы слишком часто пишете!" }))) := by
  constructor
  · intro es₀ t k draws c hold w hnew es htimes a n
    have hw₀ := wf_run env es₀
    obtain ⟨hc, hfresh⟩ := World.step_starts hw₀ hold hnew
    have htimely : Limiter.Timely ⟨t, 0⟩ (w.requests env c es) := by
      rw [Limiter.Timely, World.requests_times]
      exact htimes
    rw [World.passTimes_eq (hw₀.step _) hc, hfresh]
    exact Limiter.passed_le 1 4 a n htimely
  · intro es e c p hp
    obtain ⟨_, _, _, _, _, _, _, hne⟩ := World.messageOf_some env hp
    have hlast : (((run env es).heard e.now c).clientAt c).lastMessageTime =
        ((run env es).clientAt c).lastMessageTime := by simp [World.heard]
    constructor
    · intro hlate hrefused
      rw [PacketMessage.Refused, PacketMessage.resetFlood, hlast, World.heard_now, if_pos (by omega)] at hrefused
      simp at hrefused
    · intro hrefused
      -- a refused message did not start the count anew
      have hrecent : PacketMessage.resetFlood ((run env es).heard e.now c) c = (run env es).heard e.now c := by
        apply PacketMessage.resetFlood_of_recent
        intro hlate
        rw [PacketMessage.Refused, PacketMessage.resetFlood, if_pos hlate] at hrefused
        simp at hrefused
      rw [PacketMessage.Refused, hrecent] at hrefused
      rw [World.step_message hp, PacketMessage.process, if_neg hne, hrecent]
      dsimp only
      rw [if_pos hrefused]

end runs

def Sample.burst : List Event := List.replicate 5 (Sample.sends 1 1 (Sample.line (utf8 "hey")))

theorem run_flood_controlled_burst :
    let w := run Sample.surroundings [Sample.opens 0 1 97 Sample.mem_a]
    let w' := run Sample.surroundings (Sample.opens 0 1 97 Sample.mem_a :: Sample.burst.dropLast)
    (w.passTimes Sample.surroundings ⟨0⟩ Sample.burst).length = 4 ∧
      (w.passTimes Sample.surroundings ⟨0⟩ Sample.burst).countP (fun u => (1 : Int) ≤ u ∧ u ≤ 1 + (0 : Nat)) ≤
        4 * (1 + (0 + 1) / 2) ∧
      w'.step Sample.surroundings (Sample.sends 1 1 (Sample.line (utf8 "hey"))) =
        Client.sendPacket (w'.heard 1 ⟨0⟩) ⟨0⟩ (.system {
          target := utf8 "#room", message := utf8 "Вы слишком часто пишете!" }) := by
  intro w w'
  have h := run_flood_controlled Sample.surroundings
  refine ⟨by decide +kernel, ?_, ?_⟩
  · exact h.1 [] 0 ⟨1⟩ [Sample.token 97 Sample.mem_a] ⟨0⟩ (by decide +kernel) (by decide +kernel) Sample.burst
      (by decide +kernel) 1 0
  · exact (h.2 (Sample.opens 0 1 97 Sample.mem_a :: Sample.burst.dropLast) _ ⟨0⟩
      { target := utf8 "#room", message := utf8 "hey" } (by decide +kernel)).2 (by decide +kernel)

end WsChat
