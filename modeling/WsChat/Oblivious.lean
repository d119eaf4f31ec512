import WsChat.History

/-! What the server does does not depend on what it has sent before: every operation does the same
in a world in which more was sent, and sends the same. -/
namespace WsChat
open Lib ClientsManager

/-- The world in which some more was sent before all the rest. -/
@[simps -fullyApplied]
def World.past (o : List (ConnectionPtr × Wire)) (w : World) : World := { w with sent := o ++ w.sent }

section
variable {env : Env} {o : List (ConnectionPtr × Wire)} {w : World} {c : ClientPtr} {k : ConnectionPtr} {r : RoomPtr}
  {m : MemberPtr}

@[simp] theorem Member.isAdmin_past : Member.isAdmin (w.past o) m = Member.isAdmin w m := rfl

@[simp] theorem Member.isOwner_past : Member.isOwner (w.past o) m = Member.isOwner w m := rfl

@[simp] theorem Member.isModer_past : Member.isModer (w.past o) m = Member.isModer w m := rfl

@[simp] theorem PacketStatus.ofMember_past (stat : Status) (data : Bytes) :
    PacketStatus.ofMember (w.past o) m stat data = PacketStatus.ofMember w m stat data := rfl

@[simp] theorem PacketOnlineList.ofRoom_past (sequenceId : Option UInt32) :
    PacketOnlineList.ofRoom (w.past o) r sequenceId = PacketOnlineList.ofRoom w r sequenceId := rfl

@[simp] theorem PacketJoin.ofMember_past (sequenceId : Option UInt32) :
    PacketJoin.ofMember (w.past o) m sequenceId = PacketJoin.ofMember w m sequenceId := rfl

@[simp] theorem PacketMessage.ofMember_past (msg : Bytes) :
    PacketMessage.ofMember (w.past o) m msg = PacketMessage.ofMember w m msg := rfl

@[simp] theorem PacketMessage.ofMembers_past (m2 : MemberPtr) (msg : Bytes) :
    PacketMessage.ofMembers (w.past o) m m2 msg = PacketMessage.ofMembers w m m2 msg := rfl

@[simp] theorem Room.findMemberByClient_past : Room.findMemberByClient (w.past o) r c = Room.findMemberByClient w r c :=
  rfl

@[simp] theorem Room.findMemberByNick_past (nick : Bytes) :
    Room.findMemberByNick (w.past o) r nick = Room.findMemberByNick w r nick := rfl

@[simp] theorem Room.findMemberById_past (id : UInt32) :
    Room.findMemberById (w.past o) r id = Room.findMemberById w r id := rfl

@[simp] theorem Member.nickPacket_past (old : Bytes) : Member.nickPacket (w.past o) m old = Member.nickPacket w m old :=
  rfl

@[simp] theorem MemberInfo.ofMember_past : MemberInfo.ofMember (w.past o) m = MemberInfo.ofMember w m := rfl

@[simp] theorem Room.getStoredMemberInfo_past :
    Room.getStoredMemberInfo (w.past o) r m = Room.getStoredMemberInfo w r m := rfl

@[simp] theorem Client.getRoomByName_past (name : Bytes) :
    Client.getRoomByName (w.past o) c name = Client.getRoomByName w c name := rfl

@[simp] theorem Server.getRoomByName_past (name : Bytes) :
    Server.getRoomByName (w.past o) name = Server.getRoomByName w name := rfl

@[simp] theorem findClientByConnection_past : findClientByConnection (w.past o) k = findClientByConnection w k := rfl

@[simp] theorem findClientByToken_past (token : Bytes) :
    findClientByToken (w.past o) token = findClientByToken w token := rfl

@[simp] theorem counterAt_past (ip : Bytes) : counterAt (w.past o) ip = counterAt w ip := rfl

theorem Room.genNextMemberIdLoop_past (fuel : Nat) (id : UInt32) :
    Room.genNextMemberIdLoop (w.past o) r fuel id = Room.genNextMemberIdLoop w r fuel id := by
  induction fuel generalizing id with
  | zero => rfl
  | succ fuel ih =>
    unfold Room.genNextMemberIdLoop
    rw [ih, Room.findMemberById_past]

@[simp] theorem Room.genNextMemberId_past : Room.genNextMemberId (w.past o) r = Room.genNextMemberId w r :=
  Room.genNextMemberIdLoop_past _ _

@[simp] theorem World.modifyClient_past (f : Client → Client) :
    (w.past o).modifyClient c f = (w.modifyClient c f).past o := rfl

@[simp] theorem World.modifyMember_past (f : Member → Member) :
    (w.past o).modifyMember m f = (w.modifyMember m f).past o := rfl

@[simp] theorem World.modifyRoom_past (f : Room → Room) : (w.past o).modifyRoom r f = (w.modifyRoom r f).past o := rfl

@[simp] theorem World.deref_past : (w.past o).deref = w.deref.past o := rfl

@[simp] theorem Member.setStatus_past (stat : Status) :
    Member.setStatus (w.past o) m stat = (Member.setStatus w m stat).past o := rfl

@[simp] theorem Client.setConnection_past (conn : Option ConnectionPtr) :
    Client.setConnection env (w.past o) c conn = (Client.setConnection env w c conn).past o := rfl

@[simp] theorem Server.closeConnection_past : Server.closeConnection (w.past o) k = (Server.closeConnection w k).past o :=
  rfl

@[simp] theorem eraseConnection_past :
    eraseConnection (w.past o) k = ((eraseConnection w k).1.past o, (eraseConnection w k).2) := rfl

@[simp] theorem removeFromClients_past :
    removeFromClients (w.past o) c = ((removeFromClients w c).1.past o, (removeFromClients w c).2) := by
  unfold removeFromClients
  simp only [World.past_manager, World.past_clientAt]
  split <;> rfl

@[simp] theorem decrementForIp_past (ip : Bytes) (field : Field) :
    decrementForIp (w.past o) ip field = (decrementForIp w ip field).past o := by
  unfold decrementForIp
  by_cases hn : field.get (counterAt w ip) - 1 < 0
  · simp only [counterAt_past, hn, if_true]
    split <;> rfl
  · simp only [counterAt_past, hn, if_false]
    split <;> rfl

@[simp] theorem connect_past (draws : List Token) :
    ClientsManager.connect env (w.past o) k draws = (ClientsManager.connect env w k draws).past o := by
  unfold ClientsManager.connect
  simp only [World.past_manager]
  split <;> rfl

@[simp] theorem Room.addMember_past :
    Room.addMember (w.past o) r c = ((Room.addMember w r c).1.past o, (Room.addMember w r c).2) := by
  unfold Room.addMember
  rw [Room.genNextMemberId_past]
  cases Room.genNextMemberId w r with
  | none => rfl
  | some id =>
    let m : MemberPtr := ⟨w.nextMember⟩
    let w₁ : World := World.modifyRoom { w with
      nextMember := w.nextMember + 1
      memberAt := Function.update w.memberAt m { id := id, client := c, room := r, lastSeenTime := w.now } } r
        fun rm => { rm with nextMemberId := id }
    -- the checks of the new member
    let seat (u : World) : World × Except JoinFailure MemberPtr :=
      if !Member.isModer u m && decide ((u.clientAt c).lastClientIP ∈ (u.roomAt r).bannedIps) then
        (u, .error .bannedByIP)
      else if !Member.isModer u m && decide ((u.clientAt c).uid ∈ (u.roomAt r).bannedUids) then
        (u, .error .bannedByID)
      else (u.modifyRoom r fun rm => { rm with members := rm.members.insert m u.order.members }, .ok m)
    change seat (w₁.past o) = ((seat w₁).1.past o, (seat w₁).2)
    simp only [seat, Member.isModer_past, World.past_clientAt, World.past_roomAt]
    split
    · rfl
    · split
      · rfl
      · rfl

@[simp] theorem Server.sendPacket_past (p : Packet) :
    Server.sendPacket (w.past o) k p = (Server.sendPacket w k p).past o := by
  simp [Server.sendPacket, World.past]

@[simp] theorem Server.sendRawData_past (data : Bytes) :
    Server.sendRawData (w.past o) k data = (Server.sendRawData w k data).past o := by
  simp [Server.sendRawData, World.past]

@[simp] theorem Client.sendPacket_past (p : Packet) :
    Client.sendPacket (w.past o) c p = (Client.sendPacket w c p).past o := by
  unfold Client.sendPacket
  rw [World.past_clientAt]
  cases (w.clientAt c).connection with
  | none => rfl
  | some k => exact Server.sendPacket_past p

@[simp] theorem Client.sendRawData_past (data : Bytes) :
    Client.sendRawData (w.past o) c data = (Client.sendRawData w c data).past o := by
  unfold Client.sendRawData
  rw [World.past_clientAt]
  cases (w.clientAt c).connection with
  | none => rfl
  | some k => exact Server.sendRawData_past data

@[simp] theorem Member.sendPacket_past (p : Packet) :
    Member.sendPacket (w.past o) m p = (Member.sendPacket w m p).past o :=
  Client.sendPacket_past p

@[simp] theorem Member.reply_past (message : Bytes) :
    Member.reply (w.past o) m message = (Member.reply w m message).past o :=
  Member.sendPacket_past _

@[simp] theorem Member.whisper_past (m2 : Option MemberPtr) (smsg : Bytes) :
    Member.whisper (w.past o) m m2 smsg = (Member.whisper w m m2 smsg).past o := by
  unfold Member.whisper
  by_cases hb : Rx.blank.fullMatch smsg
  · simp [hb]
  · cases m2 with
    | none => simp [hb]
    | some m2 => simp [hb]

@[simp] theorem Room.addToHistory_past (p : Packet) :
    Room.addToHistory env (w.past o) r p = (Room.addToHistory env w r p).past o := by
  cases p with
  | message p =>
    unfold Room.addToHistory
    simp only [World.modifyRoom_past, apply_ite (World.past o)]
  | _ => rfl

@[simp] theorem Room.sendPacketToAll_past (p : Packet) :
    Room.sendPacketToAll env (w.past o) r p = (Room.sendPacketToAll env w r p).past o := by
  unfold Room.sendPacketToAll
  rw [Room.addToHistory_past]
  exact List.foldl_hom (World.past o) fun _ _ => Member.sendPacket_past p

@[simp] theorem Room.say_past (p : PacketMessage) : Room.say env (w.past o) r p = (Room.say env w r p).past o := by
  unfold Room.say Room.newMessageId
  simp only [World.past_roomAt, World.modifyRoom_past]
  exact Room.sendPacketToAll_past _

@[simp] theorem Member.announce_past (stat : Status) :
    Member.announce env (w.past o) m stat = (Member.announce env w m stat).past o := by
  unfold Member.announce
  simp only [World.past_memberAt, PacketStatus.ofMember_past, Room.sendPacketToAll_past, Member.sendPacket_past,
    apply_ite (World.past o)]

@[simp] theorem Member.setNick_past (nick : Bytes) :
    Member.setNick env (w.past o) m nick = (Member.setNick env w m nick).past o := by
  unfold Member.setNick
  simp only [World.past_memberAt, World.past_roomAt, Member.isModer_past, Member.sendPacket_past,
    World.modifyMember_past, Member.nickPacket_past, Room.sendPacketToAll_past, apply_ite (World.past o)]

@[simp] theorem Room.kickMember_past : Room.kickMember env (w.past o) r m = (Room.kickMember env w r m).past o := by
  unfold Room.kickMember Client.onKick
  by_cases hn : (w.memberAt m).hasNick
  · simp [hn]
  · simp [hn]

@[simp] theorem Room.removeMember_past : Room.removeMember env (w.past o) r c = (Room.removeMember env w r c).past o := by
  unfold Room.removeMember
  rw [Room.findMemberByClient_past]
  cases Room.findMemberByClient w r c with
  | none => rfl
  | some m =>
    by_cases hn : (w.memberAt m).hasNick
    · simp only [World.past_memberAt, hn, if_true, PacketStatus.ofMember_past, Room.sendPacketToAll_past]
      generalize Room.sendPacketToAll env w r (.status (PacketStatus.ofMember w m .offline)) = u
      by_cases hg : (u.clientAt (u.memberAt m).client).isGuest
      · simp [hg]
      · simp [hg]
    · by_cases hg : (w.clientAt (w.memberAt m).client).isGuest
      · simp [hn, hg]
      · simp [hn, hg]

@[simp] theorem Client.leaveRoom_past : Client.leaveRoom env (w.past o) c r = (Client.leaveRoom env w c r).past o := by
  unfold Client.leaveRoom
  simp only [World.past_clientAt, World.modifyClient_past, Room.removeMember_past, apply_ite (World.past o)]

@[simp] theorem Client.onReviveRoom_past :
    Client.onReviveRoom env c (w.past o) r = (Client.onReviveRoom env c w r).past o := by
  unfold Client.onReviveRoom
  rw [Room.findMemberByClient_past]
  cases Room.findMemberByClient w r c with
  | none => rfl
  | some m =>
    have hlines : ∀ (u : World) (l : List Bytes), l.foldl (fun w s => Client.sendRawData w c s) (u.past o) =
        (l.foldl (fun w s => Client.sendRawData w c s) u).past o :=
      fun u l => List.foldl_hom (World.past o) fun _ _ => Client.sendRawData_past _
    simp only [Member.setStatus_past, PacketJoin.ofMember_past, Client.sendPacket_past, PacketOnlineList.ofRoom_past,
      World.past_roomAt, hlines, World.past_memberAt, PacketStatus.ofMember_past, Room.sendPacketToAll_past,
      apply_ite (World.past o)]

@[simp] theorem Client.onRevive_past : Client.onRevive env (w.past o) c = (Client.onRevive env w c).past o := by
  unfold Client.onRevive
  simp only [World.past_now, World.modifyClient_past, World.past_clientAt]
  exact List.foldl_hom (World.past o) fun _ _ => Client.onReviveRoom_past

@[simp] theorem Client.onDisconnectRoom_past :
    Client.onDisconnectRoom env c (w.past o) r = (Client.onDisconnectRoom env c w r).past o := by
  unfold Client.onDisconnectRoom
  rw [Room.findMemberByClient_past]
  cases Room.findMemberByClient w r c with
  | none => rfl
  | some m =>
    simp only [Member.setStatus_past, World.past_memberAt, PacketStatus.ofMember_past, Room.sendPacketToAll_past,
      apply_ite (World.past o)]

@[simp] theorem Client.onDisconnect_past : Client.onDisconnect env (w.past o) c = (Client.onDisconnect env w c).past o := by
  unfold Client.onDisconnect
  simp only [Client.setConnection_past, World.past_clientAt]
  exact List.foldl_hom (World.past o) fun _ _ => Client.onDisconnectRoom_past

@[simp] theorem Client.onRemove_past : Client.onRemove env (w.past o) c = (Client.onRemove env w c).past o := by
  have hrooms : ∀ l : List RoomPtr, l.foldl (fun w r => Room.removeMember env w r c) (w.past o) =
      (l.foldl (fun w r => Room.removeMember env w r c) w).past o :=
    fun l => List.foldl_hom (World.past o) fun _ _ => Room.removeMember_past
  unfold Client.onRemove
  simp only [World.past_clientAt, hrooms, World.modifyClient_past, Client.setConnection_past]

@[simp] theorem Client.joinRoom_past :
    Client.joinRoom (w.past o) c r = ((Client.joinRoom w c r).1.past o, (Client.joinRoom w c r).2) := by
  unfold Client.joinRoom
  rw [Room.addMember_past]
  obtain ⟨u, result⟩ := Room.addMember w r c
  cases result with
  | error => rfl
  | ok => rfl

@[simp] theorem makeOrphan_past : makeOrphan env (w.past o) c = (makeOrphan env w c).past o := by
  unfold makeOrphan
  rw [World.past_clientAt]
  cases (w.clientAt c).connection with
  | none => rfl
  | some k =>
    simp only [eraseConnection_past]
    obtain ⟨u, found⟩ := eraseConnection w k
    cases found with
    | false => rfl
    | true => simp

@[simp] theorem makeOrphanByConnection_past :
    makeOrphanByConnection env (w.past o) k = (makeOrphanByConnection env w k).past o := by
  unfold makeOrphanByConnection
  rw [findClientByConnection_past]
  cases findClientByConnection w k with
  | none => rfl
  | some c => exact makeOrphan_past

@[simp] theorem countOut_past : countOut (w.past o) c = (countOut w c).past o := by
  unfold countOut
  rw [World.past_clientAt]
  cases (w.clientAt c).connection with
  | none => rfl
  | some k =>
    simp only [eraseConnection_past]
    obtain ⟨u, found⟩ := eraseConnection w k
    cases found with
    | false => rfl
    | true => simp

@[simp] theorem remove_past : remove env (w.past o) c = (remove env w c).past o := by
  rw [ClientsManager.remove_eq, ClientsManager.remove_eq, countOut_past, removeFromClients_past]
  obtain ⟨u, found⟩ := removeFromClients (countOut w c) c
  cases found with
  | false => simp
  | true => simp

@[simp] theorem removeByConnection_past :
    removeByConnection env (w.past o) k = (removeByConnection env w k).past o := by
  unfold removeByConnection
  rw [findClientByConnection_past]
  cases findClientByConnection w k with
  | none => rfl
  | some c => exact remove_past

theorem ClientsManager.reviveClient_past (t : ClientPtr) :
    ClientsManager.reviveClient env (w.past o) c t =
      ((ClientsManager.reviveClient env w c t).1.past o, (ClientsManager.reviveClient env w c t).2) := by
  cases hk : (w.clientAt c).connection with
  | none =>
    unfold ClientsManager.reviveClient
    simp only [World.past_clientAt, hk]
  | some k =>
    rw [ClientsManager.reviveClient_eq (w := w) hk, ClientsManager.reviveClient_eq (w := w.past o) hk]
    simp only [countOut_past, World.past_clientAt, decrementForIp_past, removeFromClients_past, Client.onRemove_past,
      World.past_manager]
    generalize Client.onRemove env _ c = u
    rw [← Client.onRevive_past, ← Client.setConnection_past]
    rfl

@[simp] theorem Room.onDestroyMember_past :
    Room.onDestroyMember env r (w.past o) m = (Room.onDestroyMember env r w m).past o := by
  unfold Room.onDestroyMember
  simp only [World.past_memberAt, Client.leaveRoom_past, World.past_roomAt, Member.sendPacket_past]

@[simp] theorem Room.onDestroy_past : Room.onDestroy env (w.past o) r = (Room.onDestroy env w r).past o := by
  unfold Room.onDestroy
  rw [World.past_roomAt]
  exact List.foldl_hom (World.past o) fun _ _ => Room.onDestroyMember_past

@[simp] theorem Server.createRoom_past (name : Bytes) :
    Server.createRoom (w.past o) name = ((Server.createRoom w name).1.past o, (Server.createRoom w name).2) := by
  unfold Server.createRoom
  rw [Server.getRoomByName_past]
  cases Server.getRoomByName w name with
  | none => rfl
  | some r => rfl

@[simp] theorem Server.removeRoom_past (name : Bytes) :
    Server.removeRoom env (w.past o) name = (Server.removeRoom env w name).past o := by
  unfold Server.removeRoom
  rw [Server.getRoomByName_past]
  cases Server.getRoomByName w name with
  | none => rfl
  | some r =>
    rw [← Room.onDestroy_past]
    rfl

@[simp] theorem Server.reviveClient_past (t : ClientPtr) :
    Server.reviveClient env (w.past o) c t =
      ((Server.reviveClient env w c t).1.past o, (Server.reviveClient env w c t).2) := by
  unfold Server.reviveClient
  simp only [ClientsManager.reviveClient_past, World.past_clientAt]
  cases (w.clientAt t).connection with
  | none => rfl
  | some j => simp only [Server.closeConnection_past, apply_ite (World.past o)]

section
variable {parser : RegexParser}

theorem Command.withNick_past {act act' : Bytes → World} (h : ∀ nick, act' nick = (act nick).past o) :
    Command.withNick (w.past o) m parser act' = (Command.withNick w m parser act).past o := by
  unfold Command.withNick
  simp only [h, Member.reply_past, apply_ite (World.past o)]

theorem Command.withUid_past {act act' : UInt32 → World} (h : ∀ uid, act' uid = (act uid).past o) :
    Command.withUid (w.past o) m parser act' = (Command.withUid w m parser act).past o := by
  unfold Command.withUid
  obtain ⟨found, parser⟩ := parser.next Rx.int
  cases found with
  | true => exact h _
  | false => exact Member.reply_past _

theorem Command.withIp_past {refusal : Bytes} {act act' : Bytes → World} (h : ∀ ip, act' ip = (act ip).past o) :
    Command.withIp (w.past o) m parser refusal act' = (Command.withIp w m parser refusal act).past o := by
  unfold Command.withIp
  obtain ⟨found, parser⟩ := parser.next Rx.ip
  cases found with
  | true => exact h _
  | false => exact Member.reply_past _

theorem Command.update_past (changes : Bool) (f : Room → Room) (done same : Bytes) :
    Command.update (w.past o) m changes f done same = (Command.update w m changes f done same).past o := by
  unfold Command.update
  simp only [World.past_memberAt, World.modifyRoom_past, Member.reply_past, apply_ite (World.past o)]

theorem limited_past {full : Bool} {why : Bytes} {act act' : World} (h : act' = act.past o) :
    (if full then Member.reply (w.past o) m why else act') =
      World.past o (if full then Member.reply w m why else act) := by
  simp only [h, Member.reply_past, apply_ite (World.past o)]

theorem CommandBanNick.process_past :
    CommandBanNick.process env (w.past o) m parser = (CommandBanNick.process env w m parser).past o := by
  unfold CommandBanNick.process
  refine limited_past (Command.withNick_past fun nick => ?_)
  simp only [World.past_memberAt, World.past_roomAt]
  by_cases hb : nick ∈ (w.roomAt (w.memberAt m).room).bannedNicks
  · simp only [hb, if_true, Member.reply_past]
  · simp only [hb, if_false, World.modifyRoom_past, Room.findMemberByNick_past]
    generalize World.modifyRoom w _ _ = u
    cases Room.findMemberByNick u (w.memberAt m).room nick with
    | none => exact Member.reply_past _
    | some m2 => simp only [Room.kickMember_past, Member.reply_past]

theorem CommandKick.process_past :
    CommandKick.process env (w.past o) m parser = (CommandKick.process env w m parser).past o := by
  unfold CommandKick.process
  simp only [World.past_memberAt, Room.findMemberByNick_past]
  cases Room.findMemberByNick w (w.memberAt m).room parser.suffix with
  | none => exact Member.reply_past _
  | some m2 => exact Room.kickMember_past

theorem CommandAddModer.process_past :
    CommandAddModer.process (w.past o) m parser = (CommandAddModer.process w m parser).past o := by
  unfold CommandAddModer.process
  refine limited_past (Command.withUid_past fun uid => ?_)
  simp only [Command.update_past, Member.reply_past, apply_ite (World.past o), World.past_memberAt, World.past_roomAt]

end

theorem Command.process_past (cmd : Command) (parser : RegexParser) :
    cmd.process env (w.past o) m parser = (cmd.process env w m parser).past o := by
  cases cmd with
  | help => exact Member.reply_past _
  | nick =>
    unfold Command.process CommandNick.process
    simp only [World.past_memberAt, Room.findMemberByNick_past, Member.reply_past, Member.setNick_past,
      apply_ite (World.past o)]
  | gender =>
    unfold Command.process CommandGender.process
    simp only [World.past_memberAt, Member.setGirl, World.modifyMember_past, Member.announce_past]
  | color =>
    unfold Command.process CommandColor.process
    simp only [Member.setColor, World.modifyMember_past, Member.announce_past, Member.reply_past,
      apply_ite (World.past o)]
  | styledMessage style =>
    unfold Command.process CommandStyledMessage.process
    simp only [World.past_memberAt, PacketMessage.ofMember_past, Member.reply_past, Room.say_past,
      apply_ite (World.past o)]
  | privateMessage =>
    unfold Command.process CommandPrivateMessage.process
    simp only [World.past_memberAt, Room.findMemberByNick_past, Member.whisper_past]
  | privateMessageById =>
    unfold Command.process CommandPrivateMessageById.process
    simp only [World.past_memberAt, Room.findMemberById_past, Member.whisper_past]
  | myRoomList => exact Member.reply_past _
  | moderList => exact Member.reply_past _
  | banList => exact Member.reply_past _
  | banNick => exact CommandBanNick.process_past
  | banUid => exact limited_past (Command.withUid_past fun _ => Command.update_past _ _ _ _)
  | banIp => exact limited_past (Command.withIp_past fun _ => Command.update_past _ _ _ _)
  | unbanNick => exact Command.withNick_past fun _ => Command.update_past _ _ _ _
  | unbanUid =>
    unfold Command.process CommandUnbanUid.process
    exact Command.withUid_past fun _ => Command.update_past _ _ _ _
  | unbanIp =>
    unfold Command.process CommandUnbanIp.process
    exact Command.withIp_past fun _ => Command.update_past _ _ _ _
  | kick => exact CommandKick.process_past
  | userList => exact Member.reply_past _
  | addModer => exact CommandAddModer.process_past
  | delModer =>
    unfold Command.process CommandDelModer.process
    exact Command.withUid_past fun _ => Command.update_past _ _ _ _
  | roomList => exact Member.reply_past _
  | ipCounter => exact Member.reply_past _

@[simp] theorem PacketMessage.findCommand_past (cmd : Bytes) :
    PacketMessage.findCommand (w.past o) m cmd = PacketMessage.findCommand w m cmd := rfl

theorem PacketMessage.processCommand_past (msg : Bytes) :
    PacketMessage.processCommand env (w.past o) m r msg =
      (PacketMessage.processCommand env w m r msg).map (World.past o) := by
  unfold PacketMessage.processCommand
  by_cases hs : msg.head? ≠ some 47
  · simp only [if_pos hs, Option.map_none]
  · simp only [if_neg hs, World.past_roomAt, Member.sendPacket_past, PacketMessage.findCommand_past]
    obtain ⟨found, parser⟩ := (RegexParser.ofInput msg).next Rx.cmd
    cases found with
    | false => rfl
    | true =>
      dsimp only
      cases PacketMessage.findCommand w m (parser.shift.1.getD []) with
      | none => rfl
      | some command => exact congrArg some (Command.process_past command _)

@[simp] theorem PacketMessage.resetFlood_past :
    PacketMessage.resetFlood (w.past o) c = (PacketMessage.resetFlood w c).past o := by
  unfold PacketMessage.resetFlood
  simp only [World.past_now, World.past_clientAt, World.modifyClient_past, apply_ite (World.past o)]

theorem PacketMessage.process_past (p : PacketMessage) :
    PacketMessage.process env (w.past o) c p = (PacketMessage.process env w c p).past o := by
  unfold PacketMessage.process
  by_cases he : p.target = [] ∨ p.message = []
  · simp only [if_pos he]
  · simp only [if_neg he, PacketMessage.resetFlood_past, World.past_clientAt]
    generalize PacketMessage.resetFlood w c = u
    by_cases hf : 3 < (u.clientAt c).messageCounter
    · simp only [if_pos hf, Client.sendPacket_past]
    · by_cases hb : Rx.blank.fullMatch p.message
      · simp only [if_neg hf, if_pos hb, Client.sendPacket_past]
      · rw [if_neg hf, if_neg hb, if_neg hf, if_neg hb, World.modifyClient_past]
        generalize (u.modifyClient c fun cli => { cli with messageCounter := cli.messageCounter + 1 }) = v
        rw [Client.getRoomByName_past]
        cases Client.getRoomByName v c p.target with
        | none => exact Client.sendPacket_past _
        | some r =>
          simp only [Room.findMemberByClient_past]
          cases Room.findMemberByClient v r c with
          | none => rfl
          | some m =>
            simp only [PacketMessage.processCommand_past]
            cases PacketMessage.processCommand env v m r p.message with
            | some x => rfl
            | none => simp only [Option.map_none, World.past_memberAt, Client.sendPacket_past,
                PacketMessage.ofMember_past, Room.say_past, apply_ite (World.past o)]

theorem PacketOnlineList.process_past (p : PacketOnlineList) :
    PacketOnlineList.process (w.past o) c p = (PacketOnlineList.process w c p).past o := by
  unfold PacketOnlineList.process
  rw [Client.getRoomByName_past]
  cases Client.getRoomByName w c p.target with
  | none => exact Client.sendPacket_past _
  | some r => exact Client.sendPacket_past _

@[simp] theorem PacketAuth.initUser_past (user : DbUserInfo) :
    PacketAuth.initUser env (w.past o) c user = (PacketAuth.initUser env w c user).past o := rfl

@[simp] theorem PacketAuth.reply_past (p : PacketAuth) : PacketAuth.reply (w.past o) p c = PacketAuth.reply w p c := rfl

theorem PacketAuth.answer_past (sv : AuthServices) (p : PacketAuth) (result : Except AuthExit Unit) :
    PacketAuth.answer sv p c result (w.past o) = (PacketAuth.answer sv p c result w).past o := by
  unfold PacketAuth.answer
  cases result with
  | ok _ => exact Client.sendPacket_past _
  | error e =>
    cases e with
    | refused code info => exact Client.sendPacket_past _
    | failed f =>
      cases f with
      | std => exact Client.sendPacket_past _
      | db =>
        cases sv.reconnect with
        | ok _ => exact Client.sendPacket_past _
        | error _ => exact Client.sendPacket_past _

theorem PacketAuth.processLogin_past (sv : AuthServices) (p : PacketAuth) :
    PacketAuth.processLogin env sv (w.past o) c p = (PacketAuth.processLogin env sv w c p).past o := by
  rw [PacketAuth.processLogin_eq, PacketAuth.processLogin_eq, World.past_clientAt]
  dsimp only
  generalize (PacketAuth.authenticate env sv _ _ p).run {} = outcome
  obtain ⟨result, calls, user⟩ := outcome
  cases user with
  | none => exact PacketAuth.answer_past sv p result
  | some user =>
    simp only [Option.elim_some, PacketAuth.initUser_past]
    exact PacketAuth.answer_past sv p result

theorem PacketAuth.process_past (sv : AuthServices) (p : PacketAuth) :
    PacketAuth.process env sv (w.past o) c p = (PacketAuth.process env sv w c p).past o := by
  unfold PacketAuth.process
  have htarget : PacketAuth.target (w.past o) c p = PacketAuth.target w c p := rfl
  cases sv.construct with
  | error e => exact Client.sendPacket_past _
  | ok _ =>
    dsimp only
    rw [htarget]
    cases PacketAuth.target w c p with
    | none => exact PacketAuth.processLogin_past sv p
    | some t => simp only [PacketAuth.reply_past, Client.sendPacket_past, Server.reviveClient_past]

@[simp] theorem PacketStatus.presenceRoom_past (stat : Status) :
    PacketStatus.presenceRoom env c stat (w.past o) r = (PacketStatus.presenceRoom env c stat w r).past o := by
  unfold PacketStatus.presenceRoom
  rw [Room.findMemberByClient_past]
  cases Room.findMemberByClient w r c with
  | none => rfl
  | some m =>
    simp only [World.past_memberAt, Member.setStatus_past, PacketStatus.ofMember_past, Room.sendPacketToAll_past,
      apply_ite (World.past o)]

theorem PacketStatus.process_past (p : PacketStatus) :
    PacketStatus.process env (w.past o) c p = (PacketStatus.process env w c p).past o := by
  unfold PacketStatus.process
  by_cases hp : p.status = .away ∨ p.status = .back
  · rw [if_pos hp, if_pos hp, World.past_clientAt]
    exact List.foldl_hom (World.past o) fun _ _ => PacketStatus.presenceRoom_past _
  · by_cases ht : p.status = .typing ∨ p.status = .stopTyping
    · rw [if_neg hp, if_pos ht, if_neg hp, if_pos ht, Client.getRoomByName_past]
      cases Client.getRoomByName w c p.target with
      | none => rfl
      | some r =>
        dsimp only
        rw [Room.findMemberByClient_past]
        cases Room.findMemberByClient w r c with
        | none => rfl
        | some m =>
          simp only [World.past_memberAt, PacketStatus.ofMember_past, Room.sendPacketToAll_past,
            apply_ite (World.past o)]
    · simp only [if_neg hp, if_neg ht]

@[simp] theorem PacketJoin.restore_past :
    PacketJoin.restore (w.past o) c r m = ((PacketJoin.restore w c r m).1, (PacketJoin.restore w c r m).2.past o) := by
  unfold PacketJoin.restore
  rw [Room.getStoredMemberInfo_past]
  cases Room.getStoredMemberInfo w r m with
  | none => rfl
  | some info => rfl

@[simp] theorem PacketJoin.checkNick_past (nick : Bytes) :
    PacketJoin.checkNick (w.past o) r m nick =
      ((PacketJoin.checkNick w r m nick).1, (PacketJoin.checkNick w r m nick).2.past o) := by
  unfold PacketJoin.checkNick
  rw [Member.isModer_past, World.past_roomAt]
  by_cases hb : !Member.isModer w m && decide (nick ∈ (w.roomAt r).bannedNicks)
  · simp only [hb, if_true, Member.sendPacket_past, Room.findMemberByNick_past]
    split
    · rfl
    · rfl
  · simp only [hb, Bool.false_eq_true, if_false, Member.sendPacket_past, Room.findMemberByNick_past]
    split
    · rfl
    · rfl

@[simp] theorem PacketJoin.autoNick_past (p : PacketJoin) :
    PacketJoin.autoNick (w.past o) c r m p =
      ((PacketJoin.autoNick w c r m p).1, (PacketJoin.autoNick w c r m p).2.past o) := by
  unfold PacketJoin.autoNick
  by_cases ha : p.autoLogin
  · simp only [ha, if_true, PacketJoin.restore_past, PacketJoin.checkNick_past]
  · simp only [ha, Bool.false_eq_true, if_false]

@[simp] theorem PacketJoin.settle_past (nick : Bytes) :
    PacketJoin.settle env (w.past o) m nick = (PacketJoin.settle env w m nick).past o := by
  unfold PacketJoin.settle
  simp only [World.past_roomAt, World.past_memberAt, Member.sendPacket_past, Member.setNick_past,
    apply_ite (World.past o)]

@[simp] theorem PacketJoin.greet_past (p : PacketJoin) :
    PacketJoin.greet (w.past o) c r m p = (PacketJoin.greet w c r m p).past o := by
  unfold PacketJoin.greet
  simp only [PacketJoin.ofMember_past, Client.sendPacket_past, PacketOnlineList.ofRoom_past]

@[simp] theorem PacketJoin.welcome_past (p : PacketJoin) :
    PacketJoin.welcome env (w.past o) c r m p = (PacketJoin.welcome env w c r m p).past o := by
  unfold PacketJoin.welcome
  rw [PacketJoin.greet_past]
  generalize PacketJoin.greet w c r m p = u
  have hlines : ∀ l : List Bytes, l.foldl (fun w s => Client.sendRawData w c s) (u.past o) =
      (l.foldl (fun w s => Client.sendRawData w c s) u).past o :=
    fun l => List.foldl_hom (World.past o) fun _ _ => Client.sendRawData_past _
  by_cases hh : p.loadHistory
  · simp only [hh, if_true, World.past_roomAt, hlines, PacketJoin.autoNick_past, PacketJoin.settle_past]
  · simp only [hh, Bool.false_eq_true, if_false, PacketJoin.autoNick_past, PacketJoin.settle_past]

theorem PacketJoin.process_past (p : PacketJoin) :
    PacketJoin.process env (w.past o) c p = (PacketJoin.process env w c p).past o := by
  unfold PacketJoin.process
  rw [Client.getRoomByName_past]
  cases Client.getRoomByName w c p.target with
  | some r => exact Client.sendPacket_past _
  | none =>
    dsimp only
    rw [Server.getRoomByName_past]
    cases Server.getRoomByName w p.target with
    | none => exact Client.sendPacket_past _
    | some r =>
      dsimp only
      rw [Client.joinRoom_past]
      obtain ⟨u, result⟩ := Client.joinRoom w c r
      cases result with
      | ok m => exact PacketJoin.welcome_past p
      | error e =>
        cases e with
        | bannedByIP => exact Client.sendPacket_past _
        | bannedByID => exact Client.sendPacket_past _
        | hung => rfl

theorem PacketLeave.process_past (p : PacketTarget) :
    PacketLeave.process env (w.past o) c p = (PacketLeave.process env w c p).past o := by
  unfold PacketLeave.process
  rw [Client.getRoomByName_past]
  cases Client.getRoomByName w c p.target with
  | none => exact Client.sendPacket_past _
  | some r => simp only [Client.leaveRoom_past, Client.sendPacket_past]

theorem PacketCreateRoom.process_past (p : PacketTarget) :
    PacketCreateRoom.process (w.past o) c p = (PacketCreateRoom.process w c p).past o := by
  unfold PacketCreateRoom.process
  by_cases hg : (w.clientAt c).isGuest
  · simp only [World.past_clientAt, hg, if_true, Client.sendPacket_past]
  · by_cases hn : Rx.roomName.fullMatch p.target
    · simp only [World.past_clientAt, hg, Bool.false_eq_true, if_false, hn, Bool.not_true, Server.createRoom_past]
      obtain ⟨u, result⟩ := Server.createRoom w p.target
      cases result with
      | none => exact Client.sendPacket_past _
      | some r => simp only [World.past_clientAt, World.modifyRoom_past, Client.sendPacket_past]
    · simp [hg, hn]

theorem PacketRemoveRoom.process_past (p : PacketTarget) :
    PacketRemoveRoom.process env (w.past o) c p = (PacketRemoveRoom.process env w c p).past o := by
  unfold PacketRemoveRoom.process
  by_cases hg : (w.clientAt c).isGuest
  · simp only [World.past_clientAt, hg, if_true, Client.sendPacket_past]
  · simp only [World.past_clientAt, hg, Bool.false_eq_true, if_false, Server.getRoomByName_past]
    cases Server.getRoomByName w p.target with
    | none => exact Client.sendPacket_past _
    | some r =>
      simp only [World.past_roomAt, Server.removeRoom_past, Client.sendPacket_past, apply_ite (World.past o)]

theorem Packet.process_past (sv : AuthServices) (p : Packet) :
    p.process env sv (w.past o) c = (p.process env sv w c).past o := by
  cases p with
  | error | system | ping => rfl
  | message p => exact PacketMessage.process_past p
  | onlineList p => exact PacketOnlineList.process_past p
  | auth p => exact PacketAuth.process_past sv p
  | status p => exact PacketStatus.process_past p
  | join p => exact PacketJoin.process_past p
  | leave p => exact PacketLeave.process_past p
  | createRoom p => exact PacketCreateRoom.process_past p
  | removeRoom p => exact PacketRemoveRoom.process_past p

theorem Client.onPacket_past (sv : AuthServices) (msg : Option Json) :
    Client.onPacket env sv (w.past o) c msg = (Client.onPacket env sv w c msg).past o := by
  unfold Client.onPacket
  cases msg.map (Packet.read env.unset) with
  | none => rfl
  | some result =>
    cases result with
    | error e => rfl
    | ok pack =>
      cases pack with
      | none => rfl
      | some p =>
        dsimp only
        rw [World.past_now, World.modifyClient_past, Packet.process_past]

theorem Server.onMessage_past (sv : AuthServices) (msg : Option Json) :
    Server.onMessage env sv (w.past o) k msg = (Server.onMessage env sv w k msg).past o := by
  unfold Server.onMessage
  rw [findClientByConnection_past]
  cases findClientByConnection w k with
  | none => rfl
  | some c => exact Client.onPacket_past sv msg

theorem Server.evictOrphan_past (ip : Bytes) (counter : Counter) :
    Server.evictOrphan env (w.past o) ip counter = (Server.evictOrphan env w ip counter).past o := by
  unfold Server.evictOrphan
  have hfind : findFirstClient (w.past o) (Server.isOrphanOf (w.past o) ip) =
      findFirstClient w (Server.isOrphanOf w ip) := rfl
  by_cases hn : Server.maxClientsFromIp ≤ counter.clients
  · rw [if_pos hn, if_pos hn, hfind]
    cases findFirstClient w (Server.isOrphanOf w ip) with
    | none => rfl
    | some c => exact remove_past
  · rw [if_neg hn, if_neg hn]

theorem Server.onOpen_past (draws : List Token) :
    Server.onOpen env (w.past o) k draws = (Server.onOpen env w k draws).past o := by
  have hcounter : getCounterFromIp (w.past o) (env.realIp k) =
      ((getCounterFromIp w (env.realIp k)).1, (getCounterFromIp w (env.realIp k)).2.past o) := rfl
  unfold Server.onOpen
  simp only [hcounter, Server.closeConnection_past, Server.evictOrphan_past, connect_past, apply_ite (World.past o)]

theorem Server.onClose_past (status : Int) :
    Server.onClose env (w.past o) k status = (Server.onClose env w k status).past o := by
  unfold Server.onClose
  simp only [removeByConnection_past, makeOrphanByConnection_past, apply_ite (World.past o)]

theorem Server.tickClient_past (l : List ClientPtr) :
    Server.tickClient env (w.past o, l) c =
      ((Server.tickClient env (w, l) c).1.past o, (Server.tickClient env (w, l) c).2) := by
  unfold Server.tickClient
  simp only [World.past_now, World.past_clientAt]
  split
  · rfl
  · split
    · cases (w.clientAt c).connection with
      | none => rfl
      | some k => simp only [Server.closeConnection_past, makeOrphan_past]
    · split
      · simp only [Client.sendPacket_past]
      · rfl

theorem Server.kickOutdated_past : Server.kickOutdated env (w.past o) c = (Server.kickOutdated env w c).past o := by
  unfold Server.kickOutdated
  rw [World.past_clientAt]
  cases (w.clientAt c).connection with
  | none => exact remove_past
  | some k => simp only [Server.closeConnection_past, remove_past]

theorem Server.onTimer_past : Server.onTimer env (w.past o) = (Server.onTimer env w).past o := by
  -- the accumulator of the first loop
  let old (acc : World × List ClientPtr) : World × List ClientPtr := (acc.1.past o, acc.2)
  have hone : ∀ acc c, Server.tickClient env (old acc) c = old (Server.tickClient env acc c) :=
    fun acc _ => Server.tickClient_past acc.2
  have hfirst : w.manager.clients.foldl (Server.tickClient env) (old (w, [])) =
      old (w.manager.clients.foldl (Server.tickClient env) (w, [])) := List.foldl_hom old hone
  change w.manager.clients.foldl (Server.tickClient env) (w.past o, []) = _ at hfirst
  unfold Server.onTimer
  rw [World.past_manager, hfirst]
  exact List.foldl_hom (World.past o) fun _ _ => Server.kickOutdated_past

theorem Server.deserializeRoom_past (val : Json) :
    Server.deserializeRoom (w.past o) val = (Server.deserializeRoom w val).map (World.past o) := by
  unfold Server.deserializeRoom
  cases Room.deserialize val with
  | error e => rfl
  | ok rm => rfl

theorem Server.deserializeRooms_past (vals : List Json) :
    Server.deserializeRooms vals (w.past o) = (Server.deserializeRooms vals w).past o := by
  induction vals generalizing w with
  | nil => rfl
  | cons val vals ih =>
    unfold Server.deserializeRooms
    rw [Server.deserializeRoom_past]
    cases Server.deserializeRoom w val with
    | error e => rfl
    | ok u => exact ih

theorem World.restart_past : (w.past o).restart = w.restart.past o := by
  unfold World.restart Server.deserialize
  rw [World.past_disk]
  cases w.disk.get (utf8 "rooms") with
  | error e => rfl
  | ok rooms => exact Server.deserializeRooms_past (w := { w.fresh with rooms := ∅ }) rooms.items

theorem World.handle_past (a : Act) : (w.past o).handle env a = (w.handle env a).past o := by
  cases a with
  | connected k draws =>
    unfold World.handle
    change (if k ∈ w.opened then w.past o else _) = _
    by_cases hk : k ∈ w.opened
    · simp only [if_pos hk]
    · simp only [if_neg hk]
      rw [← Server.onOpen_past]
      rfl
  | message k msg sv => exact Server.onMessage_past sv msg
  | closed k status => exact Server.onClose_past status
  | failed k => exact makeOrphanByConnection_past
  | tick => exact Server.onTimer_past
  | save => rfl
  | restart => exact World.restart_past

theorem World.step_past (e : Event) : (w.past o).step env e = (w.step env e).past o := by
  obtain ⟨now, act⟩ := e
  by_cases hh : w.hung = true
  · by_cases hact : act = .save ∨ act = .restart
    · rcases hact with rfl | rfl
      · rw [World.step_save, World.step_save]
        rfl
      · rw [World.step_restart, World.step_restart, ← World.restart_past]
        rfl
    · rw [World.step_hung hh hact, World.step_hung (w := w.past o) hh hact]
      rfl
  · have hh : w.hung = false := by simpa using hh
    rw [World.step_running hh, World.step_running (w := w.past o) hh, ← World.handle_past]
    rfl

end
end WsChat
