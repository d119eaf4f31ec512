import WsChat.Refinement
import WsChat.Lib.Steps

/-! What a packet can do to the world, as a small set of moves. The handlers are sequences
of moves, and an invariant is proved once for each move. -/
namespace WsChat
open Lib Relation

/-- The room a packet is about, by name; empty for none. -/
def Packet.target : Packet → Bytes
  | .error p => p.target
  | .system p => p.target
  | .message p => p.target
  | .onlineList p => p.target
  | .auth _ => []
  | .status p => p.target
  | .join p => p.target
  | .leave p | .createRoom p | .removeRoom p => p.target
  | .ping _ => []

/-- A packet about no room or one of the given names, that describes no member and is no
message of one. -/
def Wire.Plain (S : Bytes → Prop) : Wire → Prop
  | .packet (.message _) | .packet (.onlineList _) | .packet (.status _) | .packet (.join _) => False
  | .raw _ => False
  | .packet p => p.target = [] ∨ S p.target

/-- The client moderates the room as one of its members. -/
def Client.Moderates (w : World) (c : ClientPtr) (r : RoomPtr) : Prop :=
  ∃ m ∈ (w.roomAt r).members, (w.memberAt m).client = c ∧ Member.isModer w m

/-- The client owns the room, as one of its members, or is an admin there. -/
def Client.Owns (w : World) (c : ClientPtr) (r : RoomPtr) : Prop :=
  ∃ m ∈ (w.roomAt r).members, (w.memberAt m).client = c ∧ Member.isOwner w m

def Client.MayRaze (w : World) (c : ClientPtr) (r : RoomPtr) : Prop :=
  (w.clientAt c).isAdmin ∨ (¬ (w.clientAt c).isGuest ∧ (w.clientAt c).uid = (w.roomAt r).ownerId)

/-- Only counters and times of clients differ, and nothing was sent. -/
structure Calm (w₀ w : World) : Prop where
  memberAt : w.memberAt = w₀.memberAt
  roomAt : w.roomAt = w₀.roomAt
  rooms : w.rooms = w₀.rooms
  uid : ∀ c, (w.clientAt c).uid = (w₀.clientAt c).uid
  connection : ∀ c, (w.clientAt c).connection = (w₀.clientAt c).connection
  sent : w.sent = w₀.sent

abbrev Anywhere : Bytes → Prop := fun _ => True

/-- The moves that leave the registry alone and everyone where they are. The client is the
one that sent the packet, `w₀` is the world in which it arrived, and `S` holds of the names of
the rooms that it may be about. -/
inductive Quiet (env : Env) (c : ClientPtr) (w₀ : World) (S : Bytes → Prop) (w : World) : World → Prop
  | tell (out : List (ConnectionPtr × Wire)) (h : ∀ x ∈ out, x.2.Plain S) : Quiet env c w₀ S w (w.emit out)
  | list (d : ClientPtr) (r : RoomPtr) (sequenceId : Option UInt32) (hS : S (w.roomAt r).name)
      (hr : r ∈ w.rooms) :
      Quiet env c w₀ S w (w.emit (w.mail d (.packet (.onlineList (PacketOnlineList.ofRoom w r sequenceId)))))
  | touch (packetTime messageTime messageCounter : Int) :
      Quiet env c w₀ S w (w.modifyClient c fun cli => { cli with
        lastPacketTime := packetTime, lastMessageTime := messageTime, messageCounter := messageCounter })
  | identify (user : DbUserInfo) (hcalm : Calm w₀ w) : Quiet env c w₀ S w (PacketAuth.initUser env w c user)
  | say (r : RoomPtr) (m : MemberPtr) (style : Style) (text : Bytes) (hS : S (w.roomAt r).name)
      (hm : m ∈ (w.roomAt r).members) (hc : (w.memberAt m).client = c) (hn : (w.memberAt m).hasNick)
      (hcalm : Calm w₀ w) :
      Quiet env c w₀ S w (Room.say env w r { PacketMessage.ofMember w m text with style := style })
  | whisper (r : RoomPtr) (m m2 : MemberPtr) (text : Bytes) (hS : S (w.roomAt r).name)
      (hm : m ∈ (w.roomAt r).members) (hc : (w.memberAt m).client = c) (hn : (w.memberAt m).hasNick)
      (hm2 : m2 ∈ (w.roomAt r).members) (hn2 : (w.memberAt m2).hasNick) (hcalm : Calm w₀ w) :
      Quiet env c w₀ S w (w.emit
        (w.mail (w.memberAt m).client (.packet (.message (PacketMessage.ofMembers w m m2 text))) ++
          w.mail (w.memberAt m2).client (.packet (.message (PacketMessage.ofMembers w m m2 text)))))
  | presence (r : RoomPtr) (m : MemberPtr) (stat : Status) (hS : S (w.roomAt r).name)
      (hm : m ∈ (w.roomAt r).members) (hn : (w.memberAt m).hasNick) (hs : stat = .away ∨ stat = .back) :
      Quiet env c w₀ S w
        (let w' := Member.setStatus w m (if stat = .back then .online else .away)
        w'.emit (w'.roomMail r (.packet (.status (PacketStatus.ofMember w' m stat)))))
  | typing (r : RoomPtr) (m : MemberPtr) (stat : Status) (hS : S (w.roomAt r).name)
      (hm : m ∈ (w.roomAt r).members) (hn : (w.memberAt m).hasNick)
      (hs : stat = .typing ∨ stat = .stopTyping) :
      Quiet env c w₀ S w (w.emit (w.roomMail r (.packet (.status (PacketStatus.ofMember w m stat)))))
  | restyle (r : RoomPtr) (m : MemberPtr) (girl : Bool) (color : Bytes) (stat : Status)
      (hS : S (w.roomAt r).name) (hm : m ∈ (w.roomAt r).members)
      (hs : stat = .genderChange ∨ stat = .colorChange) :
      Quiet env c w₀ S w (Member.announce env
        (w.modifyMember m fun mem => { mem with girl := girl, color := color }) m stat)
  | dress (r : RoomPtr) (m : MemberPtr) (girl : Bool) (color : Bytes) (hS : S (w.roomAt r).name)
      (hm : m ∈ (w.roomAt r).members) (hn : (w.memberAt m).nick = []) :
      Quiet env c w₀ S w (w.modifyMember m fun mem => { mem with girl := girl, color := color })
  | rename (r : RoomPtr) (m : MemberPtr) (nick : Bytes) (hS : S (w.roomAt r).name)
      (hm : m ∈ (w.roomAt r).members) (hne : (w.memberAt m).nick ≠ nick)
      (hfree : nick = [] ∨ Room.findMemberByNick w r nick = none)
      (hban : Member.isModer w m ∨ nick ∉ (w.roomAt r).bannedNicks) :
      Quiet env c w₀ S w
        (let w' := w.modifyMember m fun mem => { mem with nick := nick }
        w'.emit (w'.roomMail r (.packet (.status (Member.nickPacket w' m (w.memberAt m).nick)))))
  | ban (r : RoomPtr) (nicks ips : IterSet Bytes) (uids : IterSet UInt32) (hS : S (w.roomAt r).name)
      (hguard : Client.Moderates w₀ c r)
      (hn : ∀ nick ∈ nicks, nick ∈ (w.roomAt r).bannedNicks ∨ Room.findMemberByNick w r nick = none ∧ Calm w₀ w) :
      Quiet env c w₀ S w (w.modifyRoom r fun rm => { rm with
        bannedNicks := nicks, bannedIps := ips, bannedUids := uids })
  | appoint (r : RoomPtr) (moderators : IterSet UInt32) (hS : S (w.roomAt r).name)
      (hguard : Client.Owns w₀ c r) (hcalm : Calm w₀ w) :
      Quiet env c w₀ S w (w.modifyRoom r fun rm => { rm with moderators := moderators })

def World.welcomeMail (w : World) (c : ClientPtr) (r : RoomPtr) (m : MemberPtr) (sequenceId : Option UInt32)
    (loadHistory : Bool) : List (ConnectionPtr × Wire) :=
  w.mail c (.packet (.join (PacketJoin.ofMember w m sequenceId))) ++
    w.mail c (.packet (.onlineList (PacketOnlineList.ofRoom w r sequenceId))) ++
    if loadHistory then (w.roomAt r).history.flatMap fun s => w.mail c (.raw s) else []

/-- The moves of a packet. -/
inductive Move (env : Env) (c : ClientPtr) (w₀ : World) (S : Bytes → Prop) (w : World) : World → Prop
  | quiet {w' : World} (h : Quiet env c w₀ S w w') : Move env c w₀ S w w'
  | hang : Move env c w₀ S w { w with hung := true }
  | issue (r : RoomPtr) (id : UInt32) (hS : S (w.roomAt r).name) : Move env c w₀ S w (w.issue c r id)
  | enter (r : RoomPtr) (id : UInt32) (sequenceId : Option UInt32) (loadHistory : Bool)
      (hS : S (w.roomAt r).name) (hc : c ∈ w.manager.clients)
      (hr : r ∈ w.rooms) (hcr : r ∉ (w.clientAt c).rooms) (hid : Room.genNextMemberId w r = some id) :
      Move env c w₀ S w
        (let w' := w.enter c r id
        w'.emit (w'.welcomeMail c r ⟨w.nextMember⟩ sequenceId loadHistory))
  | leave (r : RoomPtr) (hS : S (w.roomAt r).name) (hr : r ∈ (w.clientAt c).rooms) :
      Move env c w₀ S w (Client.leaveRoom env w c r)
  | kick (r : RoomPtr) (m : MemberPtr) (hS : S (w.roomAt r).name) (hm : m ∈ (w.roomAt r).members)
      (hguard : Client.Moderates w₀ c r) : Move env c w₀ S w (Room.kickMember env w r m)
  | banKick (r : RoomPtr) (m : MemberPtr) (nick : Bytes) (hS : S (w.roomAt r).name)
      (hm : Room.findMemberByNick w r nick = some m) (hguard : Client.Moderates w₀ c r) (hcalm : Calm w₀ w) :
      Move env c w₀ S w (Room.kickMember env
        (w.modifyRoom r fun rm => { rm with bannedNicks := rm.bannedNicks.insert nick }) r m)
  | create (name : Bytes) (hS : S name) (hfull : Rx.roomName.fullMatch name)
      (hname : Server.getRoomByName w name = none) (hcalm : Calm w₀ w) :
      Move env c w₀ S w ((w.found name).modifyRoom ⟨w.nextRoom⟩ fun rm =>
        { rm with ownerId := (w.clientAt c).uid })
  | raze (r : RoomPtr) (name : Bytes) (hS : S name) (hr : Server.getRoomByName w name = some r)
      (hguard : Client.MayRaze w₀ c r) : Move env c w₀ S w (Server.removeRoom env w name)
  | revive (t : ClientPtr) (k : ConnectionPtr) (p : Packet) (hS : ∀ name, S name) (hc : c ∈ w.manager.clients)
      (ht : t ∈ w.manager.clients) (hct : c ≠ t) (hk : (w.clientAt c).connection = some k)
      (hp : (Wire.packet p).Plain S) :
      Move env c w₀ S w (Server.reviveClient env (w.emit [(k, .packet p)]) c t).1

def World.Saved (w : World) : Prop :=
  w.disk = .null ∨ ∃ w₀ : World, w.disk = Server.serialize w₀ ∧
    ∀ r ∈ w₀.rooms, ∀ s ∈ w₀.rooms, (w₀.roomAt r).name = (w₀.roomAt s).name → r = s

structure WF (env : Env) (w : World) : Prop where
  indexed : w.registry.Indexed env
  counted : w.registry.Counted
  limited : w.registry.Limited 5 5
  listed : w.hung = false → ∀ ip, w.registry.Listed ip
  linked : w.membership.Linked
  sound : w.nullDeref = false
  saved : w.Saved

variable {env : Env} {c : ClientPtr} {w₀ w w' : World} {S : Bytes → Prop}

theorem Quiet.frame (h : Quiet env c w₀ S w w') : Frame w w' := by
  cases h with
  | tell out _ => exact Frame.emit w out
  | list => exact Frame.emit w _
  | touch => exact Frame.modifyClient w c _ rfl rfl rfl rfl
  | identify user => exact Frame.modifyClient w c _ rfl rfl rfl rfl
  | say r =>
    rw [Room.say_eq]
    exact (Frame.modifyRoom w r _ rfl rfl).trans (Frame.emit _ _)
  | whisper => exact Frame.emit w _
  | presence r m => exact (Frame.modifyMember w m _ rfl rfl).trans (Frame.emit _ _)
  | typing => exact Frame.emit w _
  | restyle r m girl color stat =>
    rw [Member.announce_eq]
    exact (Frame.modifyMember w m _ rfl rfl).trans (Frame.emit _ _)
  | dress _ m => exact Frame.modifyMember w m _ rfl rfl
  | rename r m => exact (Frame.modifyMember w m _ rfl rfl).trans (Frame.emit _ _)
  | ban r => exact Frame.modifyRoom w r _ rfl rfl
  | appoint r => exact Frame.modifyRoom w r _ rfl rfl

theorem WF.frame (h : WF env w) (hf : Frame w w') : WF env w' where
  indexed := hf.registry ▸ h.indexed
  counted := hf.registry ▸ h.counted
  limited := hf.registry ▸ h.limited
  listed := by rw [hf.registry, hf.hung]; exact h.listed
  linked := hf.membership ▸ h.linked
  sound := hf.nullDeref.trans h.sound
  saved := by unfold World.Saved; rw [hf.disk]; exact h.saved

theorem WF.relink (h : WF env w) {ms : Membership ClientPtr RoomPtr MemberPtr Bytes}
    (he : Evolves w w.registry ms w') (hms : ms.Linked) : WF env w' where
  indexed := he.registry ▸ h.indexed
  counted := he.registry ▸ h.counted
  limited := he.registry ▸ h.limited
  listed := by rw [he.registry, he.hung]; exact h.listed
  linked := he.membership ▸ hms
  sound := he.nullDeref.trans h.sound
  saved := by unfold World.Saved; rw [he.disk]; exact h.saved

theorem WF.reregister (h : WF env w) {g : Registry} {ms : Membership ClientPtr RoomPtr MemberPtr Bytes}
    (he : Evolves w g ms w') (hi : g.Indexed env) (hc : g.Counted) (hlim : g.Limited 5 5)
    (hlist : ∀ ip, w.registry.Listed ip → g.Listed ip) (hms : ms.Linked) : WF env w' where
  indexed := he.registry ▸ hi
  counted := he.registry ▸ hc
  limited := he.registry ▸ hlim
  listed := by
    rw [he.registry, he.hung]
    exact fun hh ip => hlist ip (h.listed hh ip)
  linked := he.membership ▸ hms
  sound := he.nullDeref.trans h.sound
  saved := by unfold World.Saved; rw [he.disk]; exact h.saved

theorem World.not_issued (w : World) : (⟨w.nextMember⟩ : MemberPtr) ∉ w.membership.issued :=
  fun hm => Nat.lt_irrefl _ hm

theorem WF.hang (h : WF env w) : WF env { w with hung := true } :=
  { h with listed := fun hh => by cases hh }

theorem Server.closeConnection_frame (w : World) (k : ConnectionPtr) :
    Frame w (Server.closeConnection w k) := ⟨rfl, rfl, rfl, rfl, rfl⟩

theorem Server.reviveClient_frame (w : World) (c t : ClientPtr) :
    Frame (ClientsManager.reviveClient env w c t).1 (Server.reviveClient env w c t).1 := by
  unfold Server.reviveClient
  cases (w.clientAt t).connection with
  | none => exact Frame.refl _
  | some k =>
    dsimp only
    split
    · exact Server.closeConnection_frame _ _
    · exact Frame.refl _

theorem WF.orphan (h : WF env w) {c : ClientPtr} (hc : c ∈ w.manager.clients) :
    WF env (ClientsManager.makeOrphan env w c) :=
  h.reregister (ClientsManager.makeOrphan_evolves h.indexed h.linked hc) (h.indexed.unlink hc)
    (h.counted.unlink h.indexed.nodup hc) (h.limited.unlink h.indexed h.counted hc)
    (fun _ hl => hl.unlink (h.counted.unlink h.indexed.nodup hc)) h.linked

theorem Registry.unlink_clients (g : Registry) (c : ClientPtr) : (g.unlink c).clients = g.clients := by
  unfold Registry.unlink
  cases g.connection c <;> rfl

theorem Registry.unlink_connection_self (g : Registry) (c : ClientPtr) :
    (g.unlink c).connection c = none := by
  rw [Registry.unlink_connection, Function.update_self]

theorem WF.drop (h : WF env w) {c : ClientPtr} (hc : c ∈ w.manager.clients) :
    WF env (ClientsManager.remove env w c) := by
  have hi := h.indexed.unlink hc
  have hco := h.counted.unlink h.indexed.nodup hc
  have hc' : c ∈ (w.registry.unlink c).clients := (Registry.unlink_clients _ c).symm ▸ hc
  have hk := Registry.unlink_connection_self w.registry c
  exact h.reregister (ClientsManager.remove_evolves h.indexed h.linked hc) (hi.forget hc' hk)
    (hco.forget hc' hk) ((h.limited.unlink h.indexed h.counted hc).forget hco hc' hk)
    (fun _ hl => (hl.unlink hco).forget hc' (hco.forget hc' hk)) h.linked.withdraw

theorem WF.revive (h : WF env w) {c t : ClientPtr} {k : ConnectionPtr} (hc : c ∈ w.manager.clients)
    (ht : t ∈ w.manager.clients) (hct : c ≠ t) (hk : (w.clientAt c).connection = some k) :
    WF env (Server.reviveClient env w c t).1 := by
  have hi := h.indexed.unlink ht
  have hco := h.counted.unlink h.indexed.nodup ht
  have hclients := Registry.unlink_clients w.registry t
  have hc' : c ∈ (w.registry.unlink t).clients := hclients.symm ▸ hc
  have ht' : t ∈ (w.registry.unlink t).clients := hclients.symm ▸ ht
  have hkt := Registry.unlink_connection_self w.registry t
  have hkc : (w.registry.unlink t).connection c = some k := by
    rw [Registry.unlink_connection, Function.update_of_ne hct]
    exact hk
  exact h.reregister ((ClientsManager.reviveClient_evolves h.indexed h.linked hc ht hct hk).then_frame
      (Server.reviveClient_frame w c t)) (hi.adopt hc' ht' hct hkc hkt)
    (hco.adopt hi hc' ht' hct hkc hkt)
    ((h.limited.unlink h.indexed h.counted ht).adopt hi hco hc' ht' hct hkc hkt)
    (fun _ hl => (hl.unlink hco).adopt hco (hco.adopt hi hc' ht' hct hkc hkt)) h.linked.withdraw

/-- Every move of a packet keeps the invariant. -/
theorem WF.move (h : WF env w) (hm : Move env c w₀ S w w') : WF env w' := by
  cases hm with
  | quiet hq => exact h.frame hq.frame
  | hang => exact h.hang
  | issue r id _ => exact h.relink (issue_evolves w c r id) (h.linked.issue w.not_issued)
  | enter r id _ _ _ hc hr hcr =>
    exact h.relink ((enter_evolves w c r id).then_frame (Frame.emit _ _))
      (h.linked.enter w.not_issued hc hr hcr)
  | leave r _ hr =>
    obtain ⟨m, hm, -, he⟩ := Client.leaveRoom_evolves env h.linked hr
    exact h.relink he (h.linked.expel hm)
  | kick r m _ hm => exact h.relink Room.kickMember_evolves (h.linked.expel hm)
  | banKick r m nick _ hm =>
    have hf := Frame.modifyRoom w r (fun rm => { rm with bannedNicks := rm.bannedNicks.insert nick })
      rfl rfl
    have h' := h.frame hf
    have hm' : m ∈ (w.roomAt r).members := List.mem_of_find?_eq_some hm
    exact h'.relink Room.kickMember_evolves (h'.linked.expel (by simpa [World.membership] using hm'))
  | create name _ _ hname _ =>
    refine h.relink ((found_evolves w name).then_frame (Frame.modifyRoom _ _ _ rfl rfl)) (h.linked.found ?_ ?_)
    · exact fun hr => Nat.lt_irrefl _ hr
    · exact Server.not_mem_of_getRoomByName hname
  | raze r name _ hr => exact h.relink (Server.removeRoom_evolves h.linked hr) h.linked.raze
  | revive t k p _ hc ht hct hk => exact (h.frame (Frame.emit w _)).revive hc ht hct hk

end WsChat
