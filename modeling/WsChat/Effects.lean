import WsChat.Server

/-! What the operations do, in normal form: a broadcast appends to the packets sent, a
loop over the rooms of a client changes each of them once. -/
namespace WsChat
open Lib

/-- Append to the packets sent. -/
@[simps -fullyApplied]
def World.emit (w : World) (out : List (ConnectionPtr × Wire)) : World :=
  { w with sent := w.sent ++ out }

/-- The copies of one packet that a client gets: one, or none without a connection. -/
def World.mail (w : World) (c : ClientPtr) (x : Wire) : List (ConnectionPtr × Wire) :=
  (w.clientAt c).connection.toList.map fun k => (k, x)

/-- The copies of one packet that the members of a room get. -/
def World.roomMail (w : World) (r : RoomPtr) (x : Wire) : List (ConnectionPtr × Wire) :=
  (w.roomAt r).members.elems.flatMap fun m => w.mail (w.memberAt m).client x

namespace World

@[simp] theorem emit_nil (w : World) : w.emit [] = w := by simp [emit]

@[simp] theorem emit_emit (w : World) (a b : List (ConnectionPtr × Wire)) :
    (w.emit a).emit b = w.emit (a ++ b) := by simp [emit, List.append_assoc]

@[simp] theorem mail_emit (w : World) (out : List (ConnectionPtr × Wire)) (c : ClientPtr) (x : Wire) :
    (w.emit out).mail c x = w.mail c x := rfl

@[simp] theorem roomMail_emit (w : World) (out : List (ConnectionPtr × Wire)) (r : RoomPtr)
    (x : Wire) : (w.emit out).roomMail r x = w.roomMail r x := rfl

@[simp] theorem mail_modifyMember (w : World) (m : MemberPtr) (f : Member → Member) (c : ClientPtr)
    (x : Wire) : (w.modifyMember m f).mail c x = w.mail c x := rfl

@[simp] theorem mail_modifyRoom (w : World) (r : RoomPtr) (f : Room → Room) (c : ClientPtr)
    (x : Wire) : (w.modifyRoom r f).mail c x = w.mail c x := rfl

theorem mem_mail {w : World} {c : ClientPtr} {x y : Wire} {k : ConnectionPtr} :
    (k, y) ∈ w.mail c x ↔ (w.clientAt c).connection = some k ∧ y = x := by
  simp only [mail, List.mem_map, Option.mem_toList, Prod.mk.injEq]
  constructor
  · rintro ⟨k', hk, rfl, rfl⟩
    exact ⟨hk, rfl⟩
  · rintro ⟨hk, rfl⟩
    exact ⟨k, hk, rfl, rfl⟩

theorem mem_roomMail {w : World} {r : RoomPtr} {x y : Wire} {k : ConnectionPtr} :
    (k, y) ∈ w.roomMail r x ↔
      (∃ m ∈ (w.roomAt r).members, (w.clientAt (w.memberAt m).client).connection = some k) ∧ y = x := by
  simp only [roomMail, List.mem_flatMap, mem_mail, IterSet.mem_elems]
  constructor
  · rintro ⟨m, hm, hk, rfl⟩
    exact ⟨⟨m, hm, hk⟩, rfl⟩
  · rintro ⟨⟨m, hm, hk⟩, rfl⟩
    exact ⟨m, hm, hk, rfl⟩

end World

theorem Client.sendPacket_eq (w : World) (c : ClientPtr) (p : Packet) :
    Client.sendPacket w c p = w.emit (w.mail c (.packet p)) := by
  unfold Client.sendPacket World.mail
  cases (w.clientAt c).connection <;> simp [Server.sendPacket, World.emit]

theorem Client.sendRawData_eq (w : World) (c : ClientPtr) (s : Bytes) :
    Client.sendRawData w c s = w.emit (w.mail c (.raw s)) := by
  unfold Client.sendRawData World.mail
  cases (w.clientAt c).connection <;> simp [Server.sendRawData, World.emit]

theorem Member.sendPacket_eq (w : World) (m : MemberPtr) (p : Packet) :
    Member.sendPacket w m p = w.emit (w.mail (w.memberAt m).client (.packet p)) :=
  Client.sendPacket_eq w _ p

theorem Member.reply_eq (w : World) (m : MemberPtr) (msg : Bytes) :
    Member.reply w m msg = w.emit (w.mail (w.memberAt m).client (.packet (.system {
      target := (w.roomAt (w.memberAt m).room).name, message := msg }))) :=
  Member.sendPacket_eq w m _

theorem foldl_sendPacket (l : List MemberPtr) (w : World) (p : Packet) :
    l.foldl (fun w m => Member.sendPacket w m p) w =
      w.emit (l.flatMap fun m => w.mail (w.memberAt m).client (.packet p)) := by
  induction l generalizing w with
  | nil => simp
  | cons m l ih => rw [List.foldl_cons, ih, Member.sendPacket_eq]; simp

theorem foldl_sendRawData (l : List Bytes) (w : World) (c : ClientPtr) :
    l.foldl (fun w s => Client.sendRawData w c s) w =
      w.emit (l.flatMap fun s => w.mail c (.raw s)) := by
  induction l generalizing w with
  | nil => simp
  | cons s l ih => rw [List.foldl_cons, ih, Client.sendRawData_eq]; simp

theorem Room.addToHistory_status (env : Env) (w : World) (r : RoomPtr) (p : PacketStatus) :
    Room.addToHistory env w r (.status p) = w := rfl

theorem Room.sendPacketToAll_status (env : Env) (w : World) (r : RoomPtr) (p : PacketStatus) :
    Room.sendPacketToAll env w r (.status p) = w.emit (w.roomMail r (.packet (.status p))) := by
  rw [Room.sendPacketToAll, Room.addToHistory_status, foldl_sendPacket, World.roomMail]

theorem Room.sendPacketToAll_eq (env : Env) (w : World) (r : RoomPtr) (p : Packet) :
    Room.sendPacketToAll env w r p =
      (Room.addToHistory env w r p).emit (w.roomMail r (.packet p)) := by
  rw [Room.sendPacketToAll, foldl_sendPacket]
  congr 1
  unfold World.roomMail Room.addToHistory
  split
  · split <;> rfl
  · rfl

def PacketMessage.numbered (p : PacketMessage) (id : UInt32) : PacketMessage := { p with id := decimal id.toNat }

theorem Room.say_eq (env : Env) (w : World) (r : RoomPtr) (p : PacketMessage) :
    Room.say env w r p = (w.modifyRoom r fun rm => { rm with
      nextMessageId := rm.nextMessageId + 1
      history := if p.toId = 0 then Room.trimHistory env.maxHistory
        (rm.history ++ [env.write (p.numbered rm.nextMessageId).serialize]) else rm.history }).emit
      (w.roomMail r (.packet (.message (p.numbered (w.roomAt r).nextMessageId)))) := by
  unfold Room.say Room.newMessageId
  dsimp only
  rw [Room.sendPacketToAll_eq]
  change (Room.addToHistory env _ r (.message (p.numbered (w.roomAt r).nextMessageId))).emit
    (World.roomMail _ r (.packet (.message (p.numbered (w.roomAt r).nextMessageId)))) = _
  have hmail : World.roomMail (w.modifyRoom r fun rm => { rm with nextMessageId := rm.nextMessageId + 1 }) r
      (.packet (.message (p.numbered (w.roomAt r).nextMessageId))) =
      w.roomMail r (.packet (.message (p.numbered (w.roomAt r).nextMessageId))) := by
    simp [World.roomMail]
  rw [hmail]
  congr 1
  unfold Room.addToHistory
  dsimp only
  by_cases hto : p.toId = 0
  · have hto' : (p.numbered (w.roomAt r).nextMessageId).toId = 0 := hto
    rw [if_pos hto']
    simp [World.modifyRoom, hto]
  · have hto' : (p.numbered (w.roomAt r).nextMessageId).toId ≠ 0 := hto
    rw [if_neg hto']
    simp [World.modifyRoom, hto]

def World.announcement (w : World) (m : MemberPtr) (stat : Status) : List (ConnectionPtr × Wire) :=
  let x := Wire.packet (.status (PacketStatus.ofMember w m stat))
  if (w.memberAt m).hasNick then w.roomMail (w.memberAt m).room x else w.mail (w.memberAt m).client x

theorem Member.announce_eq (env : Env) (w : World) (m : MemberPtr) (stat : Status) :
    Member.announce env w m stat = w.emit (w.announcement m stat) := by
  unfold Member.announce World.announcement
  simp only [Room.sendPacketToAll_status, Member.sendPacket_eq]
  split <;> rfl

theorem World.announcement_status {w : World} {m : MemberPtr} {stat : Status} :
    ∀ x ∈ w.announcement m stat, x.2 = .packet (.status (PacketStatus.ofMember w m stat)) := by
  intro x hx
  unfold World.announcement at hx
  dsimp only at hx
  split at hx
  · exact (World.mem_roomMail.mp hx).2
  · exact (World.mem_mail.mp hx).2

theorem World.mail_modifyClient (w : World) (c d : ClientPtr) (f : Client → Client) (x : Wire)
    (h : (f (w.clientAt c)).connection = (w.clientAt c).connection) :
    (w.modifyClient c f).mail d x = w.mail d x := by
  unfold World.mail
  by_cases hd : d = c
  · subst hd; simp [h]
  · simp [hd]

theorem World.roomMail_modifyClient (w : World) (c : ClientPtr) (r : RoomPtr) (f : Client → Client)
    (x : Wire) (h : (f (w.clientAt c)).connection = (w.clientAt c).connection) :
    (w.modifyClient c f).roomMail r x = w.roomMail r x := by
  unfold World.roomMail
  congr 1
  funext m
  exact World.mail_modifyClient w c _ f x h

section
variable {w w' : World} {m : MemberPtr}
  (hc : (w'.memberAt m).client = (w.memberAt m).client)
  (hr : (w'.memberAt m).room = (w.memberAt m).room)
  (hu : (w'.clientAt (w.memberAt m).client).uid = (w.clientAt (w.memberAt m).client).uid)
  (ho : (w'.roomAt (w.memberAt m).room).ownerId = (w.roomAt (w.memberAt m).room).ownerId)
  (hm : (w'.roomAt (w.memberAt m).room).moderators = (w.roomAt (w.memberAt m).room).moderators)
include hc hu

theorem Member.isAdmin_congr : Member.isAdmin w' m = Member.isAdmin w m := by
  simp only [Member.isAdmin, Client.isAdmin, hc, hu]

include hr ho

theorem Member.isOwner_congr : Member.isOwner w' m = Member.isOwner w m := by
  simp only [Member.isOwner, Member.isAdmin_congr hc hu, hc, hr, hu, ho]

include hm

theorem Member.isModer_congr : Member.isModer w' m = Member.isModer w m := by
  simp only [Member.isModer, Member.isOwner_congr hc hr hu ho, hc, hr, hu, hm]

end

theorem PacketStatus.ofMember_modifyClient (w : World) (c : ClientPtr) (f : Client → Client)
    (m : MemberPtr) (stat : Status) (data : Bytes)
    (hu : (f (w.clientAt c)).uid = (w.clientAt c).uid) :
    PacketStatus.ofMember (w.modifyClient c f) m stat data = PacketStatus.ofMember w m stat data := by
  have hall : ∀ d, ((w.modifyClient c f).clientAt d).uid = (w.clientAt d).uid := by
    intro d
    by_cases hd : d = c
    · subst hd; simpa using hu
    · simp [hd]
  have ho : Member.isOwner (w.modifyClient c f) m = Member.isOwner w m :=
    Member.isOwner_congr rfl rfl (hall _) rfl
  have hm : Member.isModer (w.modifyClient c f) m = Member.isModer w m :=
    Member.isModer_congr rfl rfl (hall _) rfl rfl
  unfold PacketStatus.ofMember
  simp only [ho, hm, hall, World.modifyClient_roomAt, World.modifyClient_memberAt]

theorem PacketStatus.ofMember_modifyRoom (w : World) (r : RoomPtr) (f : Room → Room) (m : MemberPtr)
    (stat : Status) (data : Bytes) (hn : (f (w.roomAt r)).name = (w.roomAt r).name)
    (ho : (f (w.roomAt r)).ownerId = (w.roomAt r).ownerId)
    (hm : (f (w.roomAt r)).moderators = (w.roomAt r).moderators) :
    PacketStatus.ofMember (w.modifyRoom r f) m stat data = PacketStatus.ofMember w m stat data := by
  have hall : ∀ s, ((w.modifyRoom r f).roomAt s).name = (w.roomAt s).name ∧
      ((w.modifyRoom r f).roomAt s).ownerId = (w.roomAt s).ownerId ∧
      ((w.modifyRoom r f).roomAt s).moderators = (w.roomAt s).moderators := by
    intro s
    by_cases hs : s = r
    · subst hs; simp [hn, ho, hm]
    · simp [hs]
  have ho' : Member.isOwner (w.modifyRoom r f) m = Member.isOwner w m :=
    Member.isOwner_congr rfl rfl rfl (hall _).2.1
  have hm' : Member.isModer (w.modifyRoom r f) m = Member.isModer w m :=
    Member.isModer_congr rfl rfl rfl (hall _).2.1 (hall _).2.2
  unfold PacketStatus.ofMember
  simp only [ho', hm', hall, World.modifyRoom_clientAt, World.modifyRoom_memberAt]

def World.offlineMail (w : World) (r : RoomPtr) (m : MemberPtr) : List (ConnectionPtr × Wire) :=
  if (w.memberAt m).hasNick then
    w.roomMail r (.packet (.status (PacketStatus.ofMember w m .offline)))
  else []

theorem World.offlineMail_modifyClient (w : World) (c : ClientPtr) (f : Client → Client) (r : RoomPtr)
    (m : MemberPtr) (hu : (f (w.clientAt c)).uid = (w.clientAt c).uid)
    (hk : (f (w.clientAt c)).connection = (w.clientAt c).connection) :
    (w.modifyClient c f).offlineMail r m = w.offlineMail r m := by
  unfold World.offlineMail
  rw [PacketStatus.ofMember_modifyClient w c f m _ _ hu, World.roomMail_modifyClient w c r f _ hk]
  simp

theorem World.offlineMail_modifyRoom (w : World) {r s : RoomPtr} (hs : s ≠ r) (f : Room → Room)
    (m : MemberPtr) (hn : (f (w.roomAt r)).name = (w.roomAt r).name)
    (ho : (f (w.roomAt r)).ownerId = (w.roomAt r).ownerId)
    (hm : (f (w.roomAt r)).moderators = (w.roomAt r).moderators) :
    (w.modifyRoom r f).offlineMail s m = w.offlineMail s m := by
  unfold World.offlineMail World.roomMail
  rw [PacketStatus.ofMember_modifyRoom w r f m _ _ hn ho hm]
  simp [hs]

def World.storedInfo (w : World) (m : MemberPtr) (rm : Room) : AList (fun _ : UInt32 => MemberInfo) :=
  let cli := w.clientAt (w.memberAt m).client
  if cli.isGuest then rm.membersInfo else rm.membersInfo.insert cli.uid (MemberInfo.ofMember w m)

theorem Room.removeMember_eq {env : Env} {w : World} {r : RoomPtr} {c : ClientPtr} {m : MemberPtr}
    (h : Room.findMemberByClient w r c = some m) :
    Room.removeMember env w r c = (w.emit (w.offlineMail r m)).modifyRoom r fun rm =>
      { rm with membersInfo := w.storedInfo m rm, members := rm.members.erase m } := by
  unfold Room.removeMember World.offlineMail World.storedInfo
  simp only [h, Room.sendPacketToAll_status]
  by_cases hn : (w.memberAt m).hasNick <;>
    by_cases hg : (w.clientAt (w.memberAt m).client).isGuest <;>
    simp [hn, hg, World.modifyRoom, MemberInfo.ofMember]

theorem Room.removeMember_none {env : Env} {w : World} {r : RoomPtr} {c : ClientPtr}
    (h : Room.findMemberByClient w r c = none) : Room.removeMember env w r c = w.deref := by
  simp only [Room.removeMember, h]

theorem Client.leaveRoom_eq {env : Env} {w : World} {r : RoomPtr} {c : ClientPtr} {m : MemberPtr}
    (hr : r ∈ (w.clientAt c).rooms) (h : Room.findMemberByClient w r c = some m) :
    Client.leaveRoom env w c r =
      (((w.modifyClient c fun cli => { cli with rooms := cli.rooms.erase r }).emit
        (w.offlineMail r m)).modifyRoom r fun rm =>
        { rm with membersInfo := w.storedInfo m rm, members := rm.members.erase m }) := by
  unfold Client.leaveRoom
  rw [if_pos hr]
  dsimp only
  rw [Room.removeMember_eq (m := m) (by exact h),
    World.offlineMail_modifyClient w c (fun cli => { cli with rooms := cli.rooms.erase r }) r m rfl rfl]
  congr 1
  funext rm
  congr 1
  unfold World.storedInfo MemberInfo.ofMember Client.isGuest
  by_cases hc : (w.memberAt m).client = c
  · simp [hc]
  · simp [hc]

theorem Room.kickMember_eq (env : Env) (w : World) (r : RoomPtr) (m : MemberPtr) :
    Room.kickMember env w r m =
      (((w.modifyClient (w.memberAt m).client fun cli => { cli with rooms := cli.rooms.erase r }).emit
        (w.offlineMail r m ++ w.mail (w.memberAt m).client
          (.packet (.leave { target := (w.roomAt r).name })))).modifyRoom r fun rm =>
        { rm with members := rm.members.erase m }) := by
  have hp : PacketStatus.ofMember (Client.onKick w (w.memberAt m).client r) m .offline =
      PacketStatus.ofMember w m .offline :=
    PacketStatus.ofMember_modifyClient w _ _ m _ _ rfl
  unfold Room.kickMember World.offlineMail
  simp only [Room.sendPacketToAll_status, Member.sendPacket_eq, hp]
  by_cases hn : (w.memberAt m).hasNick <;>
    simp [hn, Client.onKick, World.mail_modifyClient, World.roomMail_modifyClient]

def World.withoutMember (w : World) (c : ClientPtr) (r : RoomPtr) : Room :=
  match Room.findMemberByClient w r c with
  | some m => { w.roomAt r with
      membersInfo := w.storedInfo m (w.roomAt r), members := (w.roomAt r).members.erase m }
  | none => w.roomAt r

def World.farewell (w : World) (c : ClientPtr) (r : RoomPtr) : List (ConnectionPtr × Wire) :=
  match Room.findMemberByClient w r c with
  | some m => w.offlineMail r m
  | none => []

theorem foldl_removeMember {env : Env} {c : ClientPtr} {l : List RoomPtr} (hl : l.Nodup) {w : World}
    (h : ∀ r ∈ l, ∃ m, Room.findMemberByClient w r c = some m) :
    l.foldl (fun w r => Room.removeMember env w r c) w =
      { w with
        roomAt := fun r => if r ∈ l then w.withoutMember c r else w.roomAt r
        sent := w.sent ++ l.flatMap (w.farewell c) } := by
  induction l generalizing w with
  | nil => simp
  | cons r l ih =>
    obtain ⟨m, hm⟩ := h r List.mem_cons_self
    obtain ⟨hrl, hl⟩ := List.nodup_cons.mp hl
    -- the turns for the other rooms see what they saw before
    let f : Room → Room := fun rm =>
      { rm with membersInfo := w.storedInfo m rm, members := rm.members.erase m }
    have hne : ∀ s ∈ l, s ≠ r := by
      rintro s hs rfl
      exact hrl hs
    have hfind : ∀ s ∈ l, Room.findMemberByClient ((w.emit (w.offlineMail r m)).modifyRoom r f) s c =
        Room.findMemberByClient w s c := by
      intro s hs
      simp [Room.findMemberByClient, hne s hs]
    have hwithout : ∀ s ∈ l, ((w.emit (w.offlineMail r m)).modifyRoom r f).withoutMember c s =
        w.withoutMember c s := by
      intro s hs
      unfold World.withoutMember
      rw [hfind s hs]
      simp [hne s hs, World.storedInfo, MemberInfo.ofMember]
    have hfarewell : ∀ s ∈ l, ((w.emit (w.offlineMail r m)).modifyRoom r f).farewell c s =
        w.farewell c s := by
      intro s hs
      unfold World.farewell
      rw [hfind s hs]
      cases Room.findMemberByClient w s c with
      | none => rfl
      | some n => exact World.offlineMail_modifyRoom (w.emit _) (hne s hs) f n rfl rfl rfl
    rw [List.foldl_cons, Room.removeMember_eq hm, ih hl fun s hs => (hfind s hs).symm ▸ h s
      (List.mem_cons_of_mem r hs)]
    have hroom : ∀ s, (if s ∈ l then ((w.emit (w.offlineMail r m)).modifyRoom r f).withoutMember c s
        else ((w.emit (w.offlineMail r m)).modifyRoom r f).roomAt s) =
        if s ∈ r :: l then w.withoutMember c s else w.roomAt s := by
      intro s
      by_cases hs : s ∈ l
      · rw [if_pos hs, if_pos (List.mem_cons_of_mem r hs), hwithout s hs]
      · by_cases hsr : s = r
        · subst hsr
          simp [hs, World.withoutMember, hm, f]
        · simp [hs, hsr]
    have hsent : l.flatMap (((w.emit (w.offlineMail r m)).modifyRoom r f).farewell c) =
        l.flatMap (w.farewell c) := List.flatMap_congr hfarewell
    have hfirst : w.farewell c r = w.offlineMail r m := by simp [World.farewell, hm]
    change ({ w with roomAt := _, sent := (w.sent ++ w.offlineMail r m) ++ _ } : World) = _
    rw [hsent, funext hroom, List.flatMap_cons, hfirst, List.append_assoc]

def World.Farewell (w : World) (r : RoomPtr) (x : Wire) : Prop :=
  (∃ m ∈ (w.roomAt r).members, x = .packet (.status (PacketStatus.ofMember w m .offline))) ∨
    x = .packet (.leave { target := (w.roomAt r).name })

theorem World.offlineMail_status {w : World} {r : RoomPtr} {m : MemberPtr} :
    ∀ x ∈ w.offlineMail r m, x.2 = .packet (.status (PacketStatus.ofMember w m .offline)) := by
  intro x hx
  unfold World.offlineMail at hx
  split at hx
  · exact (World.mem_roomMail.mp hx).2
  · cases hx

theorem foldl_onDestroyMember (env : Env) {r : RoomPtr} {l : List MemberPtr} {w : World}
    (hl : (w.roomAt r).members.elems = l)
    (hunique : ∀ m ∈ l, ∀ n ∈ l, (w.memberAt m).client = (w.memberAt n).client → m = n)
    (hjoined : ∀ m ∈ l, r ∈ (w.clientAt (w.memberAt m).client).rooms) :
    ∃ info out, (∀ x ∈ out, w.Farewell r x.2) ∧
      l.foldl (Room.onDestroyMember env r) w = { w with
        clientAt := fun d => if d ∈ l.map (fun m => (w.memberAt m).client)
          then { w.clientAt d with rooms := (w.clientAt d).rooms.erase r } else w.clientAt d
        roomAt := Function.update w.roomAt r { w.roomAt r with membersInfo := info, members := ∅ }
        sent := w.sent ++ out } := by
  induction l generalizing w with
  | nil =>
    refine ⟨(w.roomAt r).membersInfo, [], by simp, ?_⟩
    have hempty : (w.roomAt r).members = ∅ := IterSet.ext hl
    simp [← hempty]
  | cons m l ih =>
    have hnd : (m :: l).Nodup := hl ▸ (w.roomAt r).members.nodup
    obtain ⟨hml, -⟩ := List.nodup_cons.mp hnd
    have hfind : Room.findMemberByClient w r (w.memberAt m).client = some m := by
      simp [Room.findMemberByClient, hl]
    have hstep : Room.onDestroyMember env r w m =
        (((w.modifyClient (w.memberAt m).client fun cli =>
          { cli with rooms := cli.rooms.erase r }).emit (w.offlineMail r m)).modifyRoom r fun rm =>
          { rm with membersInfo := w.storedInfo m rm, members := rm.members.erase m }).emit
        (w.mail (w.memberAt m).client (.packet (.leave { target := (w.roomAt r).name }))) := by
      unfold Room.onDestroyMember
      rw [Client.leaveRoom_eq (hjoined m List.mem_cons_self) hfind, Member.sendPacket_eq]
      simp [World.mail_modifyClient]
    have hclient : ∀ n ∈ l, (w.memberAt n).client ≠ (w.memberAt m).client := by
      intro n hn he
      have := hunique n (List.mem_cons_of_mem m hn) m List.mem_cons_self he
      exact hml (this ▸ hn)
    rw [List.foldl_cons, hstep]
    generalize hw' : World.emit _ _ = w'
    have hmembers : (w'.roomAt r).members.elems = l := by
      subst hw'
      simp [hl]
    have hmemberAt : w'.memberAt = w.memberAt := by subst hw'; rfl
    have hpacket : ∀ n, PacketStatus.ofMember w' n .offline = PacketStatus.ofMember w n .offline := by
      intro n
      subst hw'
      refine Eq.trans ?_ (PacketStatus.ofMember_modifyClient w (w.memberAt m).client
        (fun cli => { cli with rooms := cli.rooms.erase r }) n .offline [] rfl)
      exact PacketStatus.ofMember_modifyRoom _ r
        (fun rm => { rm with membersInfo := w.storedInfo m rm, members := rm.members.erase m }) n .offline [] rfl rfl rfl
    obtain ⟨info, out, hout, hfold⟩ := ih (w := w') hmembers
      (fun n hn n' hn' he => hunique n (List.mem_cons_of_mem m hn) n' (List.mem_cons_of_mem m hn')
        (by simpa [hmemberAt] using he))
      (fun n hn => by
        have := hjoined n (List.mem_cons_of_mem m hn)
        subst hw'
        simpa [hclient n hn] using this)
    have hin : ∀ n ∈ m :: l, n ∈ (w.roomAt r).members := fun n hn => IterSet.mem_elems.mp (hl.symm ▸ hn)
    rw [hfold]
    refine ⟨info, w.offlineMail r m ++ w.mail (w.memberAt m).client
      (.packet (.leave { target := (w.roomAt r).name })) ++ out, ?_, ?_⟩
    · intro x hx
      rcases List.mem_append.mp hx with hx | hx
      · rcases List.mem_append.mp hx with hx | hx
        · exact .inl ⟨m, hin m List.mem_cons_self, World.offlineMail_status x hx⟩
        · exact .inr (World.mem_mail.mp hx).2
      · rcases hout x hx with ⟨n, hn, hxn⟩ | hleave
        · have hnl : n ∈ l := hmembers ▸ IterSet.mem_elems.mpr hn
          exact .inl ⟨n, hin n (List.mem_cons_of_mem m hnl), by rw [hxn, hpacket]⟩
        · subst hw'
          exact .inr (by simpa using hleave)
    · have hmap : (w.memberAt m).client ∉ l.map fun n => (w.memberAt n).client := by
        rw [List.mem_map]
        rintro ⟨n, hn, he⟩
        exact hclient n hn he
      have hclients : ∀ d, (if d ∈ l.map (fun n => (w'.memberAt n).client)
          then { w'.clientAt d with rooms := (w'.clientAt d).rooms.erase r } else w'.clientAt d) =
          if d ∈ (m :: l).map (fun n => (w.memberAt n).client)
          then { w.clientAt d with rooms := (w.clientAt d).rooms.erase r } else w.clientAt d := by
        intro d
        rw [hmemberAt]
        simp only [List.map_cons, List.mem_cons]
        subst hw'
        by_cases hd : d = (w.memberAt m).client
        · subst hd
          simp [hmap]
        · simp [hd]
      rw [funext hclients]
      subst hw'
      simp [World.emit, World.modifyRoom, World.modifyClient]

/-- A member object that is not in its room. -/
def World.issue (w : World) (c : ClientPtr) (r : RoomPtr) (id : UInt32) : World :=
  { w with
    nextMember := w.nextMember + 1
    memberAt := Function.update w.memberAt ⟨w.nextMember⟩
      { id := id, client := c, room := r, lastSeenTime := w.now }
    roomAt := Function.update w.roomAt r { w.roomAt r with nextMemberId := id } }

/-- A member of a room. -/
def World.enter (w : World) (c : ClientPtr) (r : RoomPtr) (id : UInt32) : World :=
  { w with
    nextMember := w.nextMember + 1
    clientAt := Function.update w.clientAt c
      { w.clientAt c with rooms := (w.clientAt c).rooms.insert r w.order.connectedRooms }
    memberAt := Function.update w.memberAt ⟨w.nextMember⟩
      { id := id, client := c, room := r, lastSeenTime := w.now, status := .online }
    roomAt := Function.update w.roomAt r { w.roomAt r with
      nextMemberId := id, members := (w.roomAt r).members.insert ⟨w.nextMember⟩ w.order.members } }

theorem Room.addMember_cases {w : World} {r : RoomPtr} {id : UInt32} (c : ClientPtr)
    (h : Room.genNextMemberId w r = some id) :
    (∃ e, e ≠ .hung ∧ Room.addMember w r c = (w.issue c r id, .error e)) ∨
      Room.addMember w r c = ((w.issue c r id).modifyRoom r fun rm =>
        { rm with members := rm.members.insert ⟨w.nextMember⟩ w.order.members }, .ok ⟨w.nextMember⟩) := by
  unfold Room.addMember
  rw [h]
  dsimp only
  split
  · exact .inl ⟨.bannedByIP, by decide, rfl⟩
  · split
    · exact .inl ⟨.bannedByID, by decide, rfl⟩
    · exact .inr rfl

theorem Client.joinRoom_cases (w : World) (c : ClientPtr) (r : RoomPtr) :
    (∃ id, Room.genNextMemberId w r = some id ∧
      (Client.joinRoom w c r = (w.enter c r id, .ok ⟨w.nextMember⟩) ∨
        ∃ e, e ≠ .hung ∧ Client.joinRoom w c r = (w.issue c r id, .error e))) ∨
    Client.joinRoom w c r = ({ w with hung := true }, .error .hung) := by
  unfold Client.joinRoom
  cases hid : Room.genNextMemberId w r with
  | none => exact .inr (by simp [Room.addMember, hid])
  | some id =>
    refine .inl ⟨id, rfl, ?_⟩
    rcases Room.addMember_cases c hid with ⟨e, he, hadd⟩ | hadd
    · exact .inr ⟨e, he, by rw [hadd]⟩
    · refine .inl ?_
      rw [hadd]
      simp [World.enter, World.issue, World.modifyRoom, World.modifyClient, Member.setStatus,
        World.modifyMember]

/-- A room without members that has the name. -/
def World.found (w : World) (name : Bytes) : World :=
  { w with
    nextRoom := w.nextRoom + 1
    roomAt := Function.update w.roomAt ⟨w.nextRoom⟩ { name := name }
    rooms := w.rooms.insert ⟨w.nextRoom⟩ w.order.rooms }

theorem Server.createRoom_eq {w : World} {name : Bytes} (h : Server.getRoomByName w name = none) :
    Server.createRoom w name = (w.found name, some ⟨w.nextRoom⟩) := by
  simp only [Server.createRoom, h, World.found]

end WsChat
